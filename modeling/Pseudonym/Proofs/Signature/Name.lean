import Pseudonym.Proofs.Signature.Mirror

/-!
# Names in class types

A name in a class type goes on up to the first `<`, `.` or `;`, and must not be empty. Until then
its characters complete no piece (`scanFrom_letters`), and the character that ends it completes two:
the class with that name, and itself (`scanFrom_name`). The state behind it depends on nothing but
the name and that character (`behindName`),

    <  opens the type arguments of the class,
    .  goes on with a class nested in it,
    ;  ends its type.
-/

namespace Pseudonym.Signature

open Text

/-! ### Characters of a name -/

/-- Whether a character ends a name in a class type. -/
def endsName (c : Char) : Bool := c == '<' || c == '.' || c == ';'

theorem isIllegalInName_of_endsName {c : Char} (h : endsName c = true) :
    isIllegalInName c = true := by
  simp only [endsName, Bool.or_eq_true, beq_iff_eq] at h
  rcases h with (rfl | rfl) | rfl <;> decide

variable {part : Part} {enclosing : List String} {outer : Option String}
  {reversed simple : List Char} {place : Nat}

theorem step_segment (c : Char) :
    step ⟨part, enclosing, .segment outer reversed⟩ c place =
      stepSegment ⟨part, enclosing, .segment outer reversed⟩ outer reversed c place := rfl

/-- A name must not be empty. -/
theorem step_empty {c : Char} (ends : endsName c = true) (place : Nat) :
    step ⟨part, enclosing, .segment outer []⟩ c place = .error (.emptyName place) := by
  unfold endsName at ends
  simp [step_segment, stepSegment, ends]

theorem step_letter {c : Char} (goes : endsName c = false) (reversed : List Char) (place : Nat) :
    step ⟨part, enclosing, .segment outer reversed⟩ c place =
      .ok (⟨part, enclosing, .segment outer (c :: reversed)⟩, []) := by
  unfold endsName at goes
  simp only [step_segment, stepSegment, goes, Bool.false_eq_true, if_false]
  rfl

/-- The characters of a name complete no piece. -/
theorem scanFrom_letters (h : ∀ c ∈ simple, endsName c = false) (place : Nat)
    (reversed more : List Char) :
    scanFrom place ⟨part, enclosing, .segment outer reversed⟩ (simple ++ more) =
      scanFrom (place + byteLength simple)
        ⟨part, enclosing, .segment outer (simple.reverse ++ reversed)⟩ more := by
  induction simple generalizing place reversed with
  | nil => rfl
  | cons c simple ih =>
    rw [List.forall_mem_cons] at h
    rw [List.cons_append, scanFrom, step_letter h.1]
    dsimp only
    rw [ih h.2, List.nil_append, List.reverse_cons, List.append_assoc, byteLength_cons,
      Nat.add_assoc]
    rfl

/-- A name that was read without a fault is not empty and has an end. -/
theorem exists_end_of_scanFrom {text : List Char}
    (h : (scanFrom place ⟨part, enclosing, .segment outer reversed⟩ text).fault = none) :
    ∃ simple stop rest, text = simple ++ stop :: rest ∧ (∀ c ∈ simple, endsName c = false) ∧
      endsName stop = true ∧ simple.reverse ++ reversed ≠ [] := by
  induction text generalizing place reversed with
  | nil => cases h
  | cons c text ih =>
    by_cases ends : endsName c = true
    · refine ⟨[], c, text, rfl, by simp, ends, ?_⟩
      rintro empty
      obtain rfl : reversed = [] := by simpa using empty
      rw [scanFrom, step_empty ends] at h
      cases h
    · have goes : ∀ d ∈ [c], endsName d = false := by simpa using ends
      rw [← List.singleton_append, scanFrom_letters goes] at h
      obtain ⟨simple, stop, rest, rfl, letters, ends, full⟩ := ih h
      refine ⟨c :: simple, stop, rest, rfl, ?_, ends, by simp⟩
      exact List.forall_mem_cons.2 ⟨goes c (by simp), letters⟩

/-! ### What can be named -/

/-- What a class type can name: a text that does not end the name early. -/
def IsName (name : String) : Prop := name ≠ "" ∧ ∀ c ∈ name.toList, endsName c = false

instance (name : String) : Decidable (IsName name) :=
  decidable_of_iff (name ≠ "" ∧ name.toList.all (!endsName ·) = true)
    (and_congr_right' (by simp))

theorem isName_ofList (full : simple ≠ []) (letters : ∀ c ∈ simple, endsName c = false) :
    IsName (String.ofList simple) :=
  ⟨by simpa using full, by simpa using letters⟩

theorem isName_nestedName (houter : ∀ name ∈ outer, IsName name) (full : simple ≠ [])
    (letters : ∀ c ∈ simple, endsName c = false) : IsName (nestedName outer simple) := by
  cases outer with
  | none => exact isName_ofList full letters
  | some name =>
    have around := (houter name rfl).2
    refine ⟨ne_of_apply_ne String.toList (by simp [nestedName]), fun c hc => ?_⟩
    simp only [nestedName, String.toList_append, String.toList_ofList, List.mem_append] at hc
    rcases hc with (hc | dollar) | hc
    · exact around c hc
    · obtain rfl : c = '$' := by simpa using dollar
      rfl
    · exact letters c hc

/-! ### Behind a name -/

/-- The state behind a name in a class type and the character that ended it. -/
def behindName (part : Part) (enclosing : List String) (name : String) (stop : Char) : State :=
  match stop with
  | '<' => ⟨part, name :: enclosing, .next⟩
  | '.' => ⟨part, enclosing, .segment (some name) []⟩
  | _ => State.endType ⟨part, enclosing, .next⟩

/-- The piece that the character behind a name makes. -/
def stopPiece (stop : Char) : Piece := if stop = ';' then .close else .char stop

theorem step_name {stop : Char} (ends : endsName stop = true) (full : simple ≠ []) (place : Nat) :
    step ⟨part, enclosing, .segment outer simple.reverse⟩ stop place =
      .ok (behindName part enclosing (nestedName outer simple) stop,
        [segmentPiece outer simple, stopPiece stop]) := by
  have named : simple.reverse.isEmpty = false := by simpa using full
  have stops : stop = '<' ∨ stop = '.' ∨ stop = ';' := by simpa [endsName, or_assoc] using ends
  rcases stops with rfl | rfl | rfl <;>
    simp [step_segment, stepSegment, named, behindName, stopPiece, State.enter, State.endType]

/-- A name and the character behind it are read as one piece each. -/
theorem scanFrom_name (part : Part) (enclosing : List String) (outer : Option String)
    {stop : Char} (ends : endsName stop = true) (full : simple ≠ [])
    (letters : ∀ c ∈ simple, endsName c = false) (place : Nat) (rest : List Char) :
    ∃ place', scanFrom place ⟨part, enclosing, .segment outer []⟩ (simple ++ stop :: rest) =
      let scan := scanFrom place' (behindName part enclosing (nestedName outer simple) stop) rest
      ⟨segmentPiece outer simple :: stopPiece stop :: scan.pieces, scan.fault⟩ := by
  refine ⟨place + byteLength simple + stop.utf8Size, ?_⟩
  rw [scanFrom_letters letters, List.append_nil, scanFrom, step_name ends full]
  rfl

theorem pending_behindName (name : String) (stop : Char) :
    (behindName part enclosing name stop).mode.pending = [] := by
  unfold behindName
  split
  · rfl
  · rfl
  · exact (endType_spec _).2

theorem map_behindName {f : String → String} (name : String) (stop : Char) :
    (behindName part enclosing name stop).map f =
      behindName part (enclosing.map f) (f name) stop := by
  unfold behindName
  split
  · rfl
  · rfl
  · exact map_endType _

/-- Behind a name its class is open, or its type was closed. -/
theorem around_behindName (part : Part) (enclosing : List String) (name : String) {stop : Char}
    (ends : endsName stop = true) :
    (stopPiece stop = .char stop ∧
      (behindName part enclosing name stop).around = name :: enclosing) ∨
    (stop = ';' ∧ (behindName part enclosing name stop).around = enclosing) := by
  have stops : stop = '<' ∨ stop = '.' ∨ stop = ';' := by simpa [endsName, or_assoc] using ends
  rcases stops with rfl | rfl | rfl
  · exact Or.inl ⟨rfl, rfl⟩
  · exact Or.inl ⟨rfl, rfl⟩
  · exact Or.inr ⟨rfl, (endType_spec _).1⟩

variable {pieces : List Piece} {g : String → String} {stop : Char}

theorem pieceNames_segmentPiece :
    pieceNames (segmentPiece outer simple :: pieces) =
      nestedName outer simple :: pieceNames pieces := by
  cases outer with
  | none => rfl
  | some name => rfl

theorem pieceNames_stopPiece (stop : Char) (more : List Piece) :
    pieceNames (stopPiece stop :: more) = pieceNames more := by
  unfold stopPiece
  split
  · rfl
  · rfl

theorem forall_around_behindName {P : String → Prop} {name : String} (named : P name)
    (inside : ∀ other ∈ enclosing, P other) (ends : endsName stop = true) :
    ∀ other ∈ (behindName part enclosing name stop).around, P other := by
  rcases around_behindName part enclosing name ends with ⟨-, around⟩ | ⟨-, around⟩
  · rw [around]
    exact List.forall_mem_cons.2 ⟨named, inside⟩
  · rw [around]
    exact inside

/-- The character behind a name stays, and the writer follows. -/
theorem renamedPieces_stopPiece (part : Part) (enclosing : List String) (name : String)
    (ends : endsName stop = true) (more : List Piece) :
    renamedPieces g (name :: enclosing) (stopPiece stop :: more) =
      stop :: renamedPieces g (behindName part enclosing name stop).around more := by
  rcases around_behindName part enclosing name ends with ⟨stays, around⟩ | ⟨rfl, around⟩
  · rw [stays, around]
    rfl
  · rw [around]
    rfl

end Pseudonym.Signature
