import Mathlib.Data.List.Basic
import Pseudonym.Proofs.Asking
import Pseudonym.Proofs.Outcome
import Pseudonym.Signature.Renaming

/-!
# Signatures whose classes stay

A signature is cut into pieces by an automaton, and the pieces are written again with a stack of
class names. If every class keeps its name the text comes back, so nothing gets lost between the
two. The invariant ties the stack of the writer to the state of the reader: where the reader is
inside a class type, the writer has that class on top, and below it the classes whose type arguments
are open,

    renamedPieces id s.around pieces = s.pending ++ text,

for the pieces that the reader finds in `text` from the state `s` on. `s.pending` is what was read
of a name that is not complete yet, and so stands in no piece. One step of the reader preserves this
(`writes_of_step`), and a signature without a fault ends in a state where nothing is pending.

Renaming asks for the classes in the pieces, in order (`asks_rename`).
-/

namespace Pseudonym.Signature

open Text

/-! ### What is asked -/

/-- The classes that pieces name. -/
def pieceNames : List Piece → List String
  | [] => []
  | .char _ :: pieces | .close :: pieces => pieceNames pieces
  | .outer name :: pieces | .inner name :: pieces => name :: pieceNames pieces

theorem pieceNames_append (front behind : List Piece) :
    pieceNames (front ++ behind) = pieceNames front ++ pieceNames behind := by
  induction front with
  | nil => rfl
  | cons piece front ih =>
    cases piece with
    | char c | close => exact ih
    | outer name | inner name => exact congrArg (name :: ·) ih

/-- Pieces with given names in the places of their classes. -/
def renamedPieces (g : String → String) : (around : List String) → List Piece → List Char
  | _, [] => []
  | around, .char c :: pieces => c :: renamedPieces g around pieces
  | around, .close :: pieces => ';' :: renamedPieces g around.tail pieces
  | around, .outer name :: pieces =>
    (g name).toList ++ renamedPieces g (g name :: around) pieces
  | around, .inner name :: pieces =>
    simpleName (around.headD "") (g name) ++ renamedPieces g (g name :: around.tail) pieces

section

open Asks

variable {ω : Type} {f : String → Traced ω String} {g : String → String}

theorem asks_renamePieces (hg : Agrees f g) (pieces : List Piece) (around : List String) :
    Asks f (pieceNames pieces) (renamedPieces g around pieces) (renamePieces f around pieces) := by
  induction pieces generalizing around with
  | nil => exact result f []
  | cons piece pieces ih =>
    cases piece with
    | char c => exact (ih around).map (c :: ·)
    | close => exact (ih around.tail).map (';' :: ·)
    | outer name => exact (ask hg name).bind ((ih (g name :: around)).map _)
    | inner name => exact (ask hg name).bind ((ih (g name :: around.tail)).map _)

theorem asks_rename (hg : Agrees f g) {signature : String}
    (h : (scan signature.toList).fault = none) :
    Asks f (pieceNames (scan signature.toList).pieces)
      (String.ofList (renamedPieces g [] (scan signature.toList).pieces))
      (rename f signature) := by
  rw [rename, h, ← List.append_nil (pieceNames _)]
  exact (asks_renamePieces hg _ []).bind (result f _)

theorem fault_of_rename {signature text : String} (h : (rename f signature).outcome = .ok text) :
    (scan signature.toList).fault = none := by
  cases found : (scan signature.toList).fault with
  | none => rfl
  | some fault =>
    rw [rename, found, Traced.outcome_bind] at h
    obtain ⟨_, _, failed⟩ := bind_eq_ok_iff.1 h
    cases failed

theorem renamedPieces_congr {pieces : List Piece} (h : ∀ name ∈ pieceNames pieces, g name = name)
    (around : List String) : renamedPieces g around pieces = renamedPieces id around pieces := by
  induction pieces generalizing around with
  | nil => rfl
  | cons piece pieces ih =>
    cases piece with
    | char c | close => rw [renamedPieces, renamedPieces, ih h]
    | outer name | inner name =>
      obtain ⟨same, rest⟩ := List.forall_mem_cons.1 h
      rw [renamedPieces, renamedPieces, same, ih rest, id]

end

/-! ### The writer follows the reader -/

/-- The class whose type is being read, once its name is complete. -/
def Mode.current : Mode → List String
  | .segment (some name) _ | .closed name => [name]
  | _ => []

/-- What was read of a name in a class type. -/
def Mode.pending : Mode → List Char
  | .segment _ reversed => reversed.reverse
  | _ => []

/-- What the writer has on its stack when the reader is in a state. -/
def State.around (s : State) : List String := s.mode.current ++ s.enclosing

/-- From the state `s` the reader goes to `next` over `c`, and the writer follows. -/
def Writes (s : State) (c : Char) (next : State) (pieces : List Piece) : Prop :=
  ∀ more text, renamedPieces id next.around more = next.mode.pending ++ text →
    renamedPieces id s.around (pieces ++ more) = s.mode.pending ++ c :: text

/-- A step that keeps the character and leaves the stack of the writer alone. -/
structure Keeps (around : List String) (c : Char) (next : State) (pieces : List Piece) : Prop where
  pieces : pieces = [.char c]
  around : next.around = around
  pending : next.mode.pending = []

variable {s next : State} {c : Char} {place : Nat} {pieces : List Piece} {around : List String}

theorem Keeps.writes (h : Keeps around c next pieces) (hs : s.around = around)
    (pending : s.mode.pending = []) : Writes s c next pieces := by
  intro more text written
  rw [h.around, h.pending] at written
  rw [h.pieces, List.singleton_append, renamedPieces, hs, written, pending]
  rfl

theorem keeps_of_keep (h : keep s c = .ok (next, pieces)) (hs : s.around = around)
    (pending : s.mode.pending = []) : Keeps around c next pieces := by
  obtain ⟨rfl, rfl⟩ := Prod.mk.inj (Except.ok.inj h)
  exact ⟨rfl, hs, pending⟩

theorem keeps_of_stepReference (h : stepReference s c place = .ok (next, pieces)) :
    Keeps s.enclosing c next pieces := by
  unfold stepReference at h
  split at h
  · exact keeps_of_keep h rfl rfl
  · exact keeps_of_keep h rfl rfl
  · exact keeps_of_keep h rfl rfl
  · cases h

theorem endType_spec (s : State) :
    s.endType.around = s.enclosing ∧ s.endType.mode.pending = [] := by
  unfold State.endType
  split
  · exact ⟨rfl, rfl⟩
  · exact ⟨rfl, rfl⟩

theorem endType_enter (s : State) (mode : Mode) : (s.enter mode).endType = s.endType := by
  obtain ⟨part, enclosing, _⟩ := s
  cases enclosing with
  | nil => cases part <;> rfl
  | cons name others => rfl

theorem keeps_of_stepType (h : stepType s c place = .ok (next, pieces)) :
    Keeps s.enclosing c next pieces := by
  unfold stepType at h
  split at h
  · exact keeps_of_keep h (endType_spec s).1 (endType_spec s).2
  · exact keeps_of_stepReference h

theorem keeps_of_stepTypeParameters (h : stepTypeParameters s c = .ok (next, pieces)) :
    Keeps s.enclosing c next pieces := by
  unfold stepTypeParameters at h
  split at h
  · exact keeps_of_keep h rfl rfl
  · cases h
  · exact keeps_of_keep h rfl rfl

theorem keeps_of_stepBounds (h : stepBounds s c = .ok (next, pieces)) :
    Keeps s.enclosing c next pieces := by
  unfold stepBounds at h
  split at h
  · exact keeps_of_keep h rfl rfl
  · exact keeps_of_stepTypeParameters h

theorem keeps_of_stepNext {part : Part} {enclosing : List String}
    (h : stepNext ⟨part, enclosing, .next⟩ c place = .ok (next, pieces)) :
    Keeps enclosing c next pieces := by
  cases enclosing with
  | cons name others =>
    simp only [stepNext] at h
    split at h
    · exact keeps_of_keep h rfl rfl
    · exact keeps_of_keep h rfl rfl
    · exact keeps_of_keep h rfl rfl
    · exact keeps_of_keep h rfl rfl
    · exact keeps_of_stepReference h
  | nil =>
    cases part with
    | bounds => exact keeps_of_stepBounds h
    | parameters =>
      simp only [stepNext] at h
      split at h
      · exact keeps_of_keep h rfl rfl
      · exact keeps_of_stepType h
    | result | thrown =>
      simp only [stepNext] at h
      split at h
      · exact keeps_of_keep h rfl rfl
      · cases h
    | supertypes => exact keeps_of_stepReference h

/-! ### Class types -/

theorem simpleName_nested (name : String) (simple : List Char) :
    simpleName name (nestedName (some name) simple) = simple := by
  have nested : (nestedName (some name) simple).toList = (name.toList ++ ['$']) ++ simple := by
    simp [nestedName]
  rw [simpleName, nested, List.isPrefixOf?_eq_some_iff_append_eq.2 rfl]

/-- A name in a class type that stays is written as it was read, and then is on top of the stack. -/
theorem renamedPieces_segmentPiece {g : String → String} {outer : Option String}
    {simple : List Char} (stays : g (nestedName outer simple) = nestedName outer simple)
    (enclosing : List String) (more : List Piece) :
    renamedPieces g (outer.toList ++ enclosing) (segmentPiece outer simple :: more) =
      simple ++ renamedPieces g (nestedName outer simple :: enclosing) more := by
  cases outer with
  | none =>
    rw [segmentPiece, renamedPieces, stays, nestedName, String.toList_ofList]
    rfl
  | some name =>
    rw [segmentPiece, renamedPieces, stays, Option.toList_some, List.singleton_append,
      List.headD_cons, simpleName_nested, List.tail_cons]

variable {part : Part} {enclosing : List String} {outer : Option String} {reversed : List Char}

theorem around_segment :
    State.around ⟨part, enclosing, .segment outer reversed⟩ = outer.toList ++ enclosing := by
  cases outer with
  | none => rfl
  | some name => rfl

theorem writes_letter : Writes ⟨part, enclosing, .segment outer reversed⟩ c
    ⟨part, enclosing, .segment outer (c :: reversed)⟩ [] := by
  intro more text written
  rw [around_segment] at written
  rw [List.nil_append, around_segment, written]
  show (c :: reversed).reverse ++ text = reversed.reverse ++ c :: text
  rw [List.reverse_cons, List.append_assoc, List.singleton_append]

theorem writes_name (h : next.around = nestedName outer reversed.reverse :: enclosing)
    (pending : next.mode.pending = []) :
    Writes ⟨part, enclosing, .segment outer reversed⟩ c next
      [segmentPiece outer reversed.reverse, .char c] := by
  intro more text written
  rw [h, pending] at written
  rw [around_segment, List.cons_append, renamedPieces_segmentPiece (g := id) rfl,
    List.singleton_append, renamedPieces, written]
  rfl

theorem writes_name_close (h : next.around = enclosing) (pending : next.mode.pending = []) :
    Writes ⟨part, enclosing, .segment outer reversed⟩ ';' next
      [segmentPiece outer reversed.reverse, .close] := by
  intro more text written
  rw [h, pending] at written
  rw [around_segment, List.cons_append, renamedPieces_segmentPiece (g := id) rfl,
    List.singleton_append, renamedPieces, List.tail_cons, written]
  rfl

theorem writes_of_stepSegment
    (h : stepSegment ⟨part, enclosing, .segment outer reversed⟩ outer reversed c place =
      .ok (next, pieces)) :
    Writes ⟨part, enclosing, .segment outer reversed⟩ c next pieces := by
  unfold stepSegment at h
  split at h
  -- The name ends: type arguments follow, or a nested class, or nothing more.
  · next ends =>
    split at h
    · cases h
    · split at h
      · obtain ⟨rfl, rfl⟩ := Prod.mk.inj (Except.ok.inj h)
        exact writes_name rfl rfl
      · obtain ⟨rfl, rfl⟩ := Prod.mk.inj (Except.ok.inj h)
        exact writes_name rfl rfl
      · next opens nests =>
        have semicolon : c = ';' := by
          simp only [Bool.or_eq_true, beq_iff_eq] at ends
          rcases ends with (opening | nesting) | semicolon
          · exact (opens opening).elim
          · exact (nests nesting).elim
          · exact semicolon
        subst semicolon
        obtain ⟨rfl, rfl⟩ := Prod.mk.inj (Except.ok.inj h)
        exact writes_name_close (endType_spec _).1 (endType_spec _).2
  · obtain ⟨rfl, rfl⟩ := Prod.mk.inj (Except.ok.inj h)
    exact writes_letter

/-- Behind the type arguments of a class its type goes on or ends. -/
theorem keeps_or_closes_of_stepClosed {name : String}
    (h : stepClosed ⟨part, enclosing, .closed name⟩ name c place = .ok (next, pieces)) :
    Keeps (name :: enclosing) c next pieces ∨
      c = ';' ∧ pieces = [.close] ∧ next.around = enclosing ∧ next.mode.pending = [] := by
  unfold stepClosed at h
  split at h
  · exact Or.inl (keeps_of_keep h rfl rfl)
  · obtain ⟨rfl, rfl⟩ := Prod.mk.inj (Except.ok.inj h)
    exact Or.inr ⟨rfl, rfl, endType_spec _⟩
  · cases h

/-- Outside class types a step keeps its character, and the writer has nothing to push or pop. -/
theorem keeps_of_step {mode : Mode} (h : step ⟨part, enclosing, mode⟩ c place = .ok (next, pieces))
    (hs : ∀ outer reversed, mode ≠ .segment outer reversed) (hc : ∀ name, mode ≠ .closed name) :
    Keeps enclosing c next pieces := by
  cases mode with
  | start =>
    unfold step at h
    dsimp only at h
    split at h
    · exact keeps_of_keep h rfl rfl
    · exact keeps_of_keep h rfl rfl
    · exact keeps_of_stepReference h
  | body =>
    unfold step at h
    dsimp only at h
    split at h
    · exact keeps_of_keep h rfl rfl
    · exact keeps_of_stepReference h
  | typeParameters => exact keeps_of_stepTypeParameters h
  | typeParameter =>
    unfold step at h
    dsimp only at h
    split at h
    · exact keeps_of_keep h rfl rfl
    · exact keeps_of_keep h rfl rfl
  | bound =>
    unfold step at h
    dsimp only at h
    split at h
    · exact keeps_of_stepReference h
    · exact keeps_of_stepReference h
    · exact keeps_of_stepReference h
    · exact keeps_of_stepBounds h
  | next => exact keeps_of_stepNext h
  | type => exact keeps_of_stepType h
  | reference => exact keeps_of_stepReference h
  | «variable» named =>
    unfold step at h
    dsimp only at h
    split at h
    · split at h
      · exact keeps_of_keep h (endType_spec _).1 (endType_spec _).2
      · cases h
    · exact keeps_of_keep h rfl rfl
  | segment outer reversed => exact absurd rfl (hs outer reversed)
  | closed name => exact absurd rfl (hc name)

/-- Outside of names a step keeps its character or closes a class type. -/
theorem keeps_or_closes_of_step (h : step s c place = .ok (next, pieces))
    (hs : ∀ outer reversed, s.mode ≠ .segment outer reversed) :
    Keeps s.around c next pieces ∨
      c = ';' ∧ pieces = [.close] ∧ ∃ name, s.around = name :: next.around ∧
        next.mode.pending = [] := by
  obtain ⟨part, enclosing, mode⟩ := s
  cases mode with
  | segment outer reversed => exact absurd rfl (hs outer reversed)
  | closed name =>
    refine (keeps_or_closes_of_stepClosed h).imp_right ?_
    rintro ⟨rfl, closes, around, fresh⟩
    exact ⟨rfl, closes, name, by rw [around]; rfl, fresh⟩
  | _ => exact Or.inl (keeps_of_step h (by simp) (by simp))

/-- **One step of the reader is one step of the writer.** -/
theorem writes_of_step (h : step s c place = .ok (next, pieces)) : Writes s c next pieces := by
  obtain ⟨part, enclosing, mode⟩ := s
  by_cases segment : ∃ outer reversed, mode = .segment outer reversed
  · obtain ⟨outer, reversed, rfl⟩ := segment
    exact writes_of_stepSegment h
  · have pending : mode.pending = [] := by
      cases mode with
      | segment outer reversed => exact absurd ⟨outer, reversed, rfl⟩ segment
      | _ => rfl
    rcases keeps_or_closes_of_step h (by simpa using segment) with
      keeps | ⟨rfl, rfl, name, around, fresh⟩
    · exact keeps.writes rfl pending
    · intro more text written
      rw [fresh, List.nil_append] at written
      rw [around, pending, ← written]
      rfl

theorem pending_of_faultAtEnd (h : s.faultAtEnd = none) : s.mode.pending = [] := by
  obtain ⟨part, enclosing, mode⟩ := s
  cases mode with
  | segment outer reversed => exact absurd h (by simp [State.faultAtEnd])
  | _ => rfl

theorem renamedPieces_scanFrom {text : List Char} :
    ∀ {place : Nat} {s : State}, (scanFrom place s text).fault = none →
      renamedPieces id s.around (scanFrom place s text).pieces = s.mode.pending ++ text := by
  induction text with
  | nil =>
    intro place s h
    rw [pending_of_faultAtEnd h]
    rfl
  | cons c rest ih =>
    intro place s h
    cases stepped : step s c place with
    | error fault => exact absurd h (by simp [scanFrom, stepped])
    | ok result =>
      obtain ⟨next, pieces⟩ := result
      simp only [scanFrom, stepped] at h ⊢
      exact writes_of_step stepped _ _ (ih h)

/-- **A signature whose classes stay is written as it was read.** -/
theorem renamedPieces_scan {g : String → String} {signature : List Char}
    (h : (scan signature).fault = none)
    (stay : ∀ name ∈ pieceNames (scan signature).pieces, g name = name) :
    renamedPieces g [] (scan signature).pieces = signature := by
  rw [renamedPieces_congr stay]
  exact renamedPieces_scanFrom h

end Pseudonym.Signature
