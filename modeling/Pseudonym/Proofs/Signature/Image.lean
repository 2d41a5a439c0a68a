import Pseudonym.Proofs.Signature.Reads

/-!
# Signatures under new names

A new name for every class gives a new signature, and the new signature names the new classes, in
the order of the old ones. The reader of the new text goes through the images of the states that the
reader of the old text goes through (`State.map`), and finds the images of the pieces,

    Reads s text pieces  →  Reads (s.map f) text' (pieces.map f).

Outside of names both readers see the same character and take the same step, because no step looks
at a class (`imageOf_step`). A name goes by as a whole: instead of it the new reader finds the text
that was written for the new name, which it reads as that name because the renaming keeps nesting
(`exists_written`).
-/

namespace Pseudonym.Signature

open Text

variable {f : String → String}

/-! ### Images of pieces -/

/-- A piece with a new name for its class. -/
def Piece.map (f : String → String) : Piece → Piece
  | .outer name => .outer (f name)
  | .inner name => .inner (f name)
  | piece => piece

theorem pieceNames_map (pieces : List Piece) :
    pieceNames (pieces.map (Piece.map f)) = (pieceNames pieces).map f := by
  induction pieces with
  | nil => rfl
  | cons piece pieces ih =>
    cases piece with
    | char c | close => exact ih
    | outer name | inner name => exact congrArg (f name :: ·) ih

theorem map_stopPiece (stop : Char) : (stopPiece stop).map f = stopPiece stop := by
  unfold stopPiece
  split
  · rfl
  · rfl

theorem map_segmentPiece {outer : Option String} {simple written : List Char}
    (named : nestedName (outer.map f) written = f (nestedName outer simple)) :
    (segmentPiece outer simple).map f = segmentPiece (outer.map f) written := by
  cases outer with
  | none => exact congrArg Piece.outer named.symm
  | some name => exact congrArg Piece.inner named.symm

/-! ### Names -/

/-- A renaming whose new names can be read, and which keeps nesting: the new name of a nested class
is a name in the new name of the class around it. -/
structure KeepsNesting (f : String → String) : Prop where
  isName : ∀ name, IsName name → IsName (f name)
  nested : ∀ outer inner, IsName outer → IsName inner →
    ∃ simple, simple ≠ "" ∧ f (outer ++ "$" ++ inner) = f outer ++ "$" ++ simple

section

variable {part : Part} {enclosing : List String} {outer : Option String} {simple : List Char}

/-- What is written for a name in a class type is read as its new name. -/
theorem exists_written (enclosing : List String) (hf : KeepsNesting f)
    (houter : ∀ name ∈ outer, IsName name) (full : simple ≠ [])
    (letters : ∀ c ∈ simple, endsName c = false) :
    ∃ written, written ≠ [] ∧ (∀ c ∈ written, endsName c = false) ∧
      nestedName (outer.map f) written = f (nestedName outer simple) ∧
      ∀ more, renamedPieces f ((outer.toList ++ enclosing).map f)
          (segmentPiece outer simple :: more) =
        written ++ renamedPieces f (f (nestedName outer simple) :: enclosing.map f) more := by
  have named := hf.isName _ (isName_nestedName houter full letters)
  cases outer with
  | none =>
    refine ⟨(f (String.ofList simple)).toList, by simpa [nestedName] using named.1, named.2, ?_,
      fun more => rfl⟩
    exact String.ofList_toList
  | some name =>
    obtain ⟨inner, inner_full, nests⟩ :=
      hf.nested name (String.ofList simple) (houter name rfl) (isName_ofList full letters)
    have nests : f (nestedName (some name) simple) = nestedName (some (f name)) inner.toList := by
      rw [nestedName, nests, nestedName, String.ofList_toList]
    refine ⟨inner.toList, by simpa using inner_full, fun c hc => ?_, nests.symm, fun more => ?_⟩
    · refine named.2 c ?_
      rw [nests, nestedName, String.toList_append, String.toList_ofList]
      exact List.mem_append_right _ hc
    · rw [segmentPiece, renamedPieces, nests]
      simp [simpleName_nested]

end

/-! ### Both readers -/

/-- **The new text is read as the old one, with the new names.** -/
theorem Reads.map (hf : KeepsNesting f) {s : State} {text : List Char} {pieces : List Piece}
    (h : Reads s text pieces) (names : ∀ name ∈ s.around, IsName name) :
    Reads (s.map f) (renamedPieces f (s.around.map f) pieces) (pieces.map (Piece.map f)) := by
  induction h with
  | done may => exact .done (by rwa [faultAtEnd_map])
  | @char s next c rest pieces outside stepped around _ ih =>
    have image := ih (by rwa [around])
    rw [around] at image
    exact .char (outside_map outside)
      (fun place => imageOf_step outside c place place next _ (stepped place))
      (by rw [around_map, around_map, around]) image
  | @close s next name rest pieces outside stepped around _ ih =>
    have opened : (s.map f).around = f name :: (next.map f).around := by
      rw [around_map, around_map, around, List.map_cons]
    rw [around, List.forall_mem_cons] at names
    rw [around]
    exact .close (outside_map outside)
      (fun place => imageOf_step outside ';' place place next _ (stepped place)) opened (ih names.2)
  | @name part enclosing outer simple stop rest pieces full letters ends _ ih =>
    rw [around_segment, List.forall_mem_append] at names
    have houter : ∀ name ∈ outer, IsName name := fun name hn =>
      names.1 name (Option.mem_toList.2 hn)
    obtain ⟨new, new_full, new_letters, read, written⟩ :=
      exists_written enclosing hf houter full letters
    have image := ih (forall_around_behindName (isName_nestedName houter full letters) names.2 ends)
    rw [← around_map, map_behindName, ← read] at image
    rw [around_segment, written, ← read, renamedPieces_stopPiece part _ _ ends, List.map_cons,
      List.map_cons, map_segmentPiece read, map_stopPiece]
    exact .name new_full new_letters ends image

/-! ### Renaming again -/

/-- A renaming of classes that cannot fail. Its log says which classes it was asked for. -/
def logging (f : String → String) (name : String) : Traced String String := do
  Traced.note name
  return f name

theorem agrees_logging (f : String → String) : Agrees (logging f) f := by
  intro name text answered
  exact Except.ok.inj answered

/-- Where no class fails, renaming succeeds, and asks for the classes that the signature names. -/
theorem rename_logging {signature : String} (sound : (scan signature.toList).fault = none) :
    (rename (logging f) signature).outcome =
        .ok (String.ofList (renamedPieces f [] (scan signature.toList).pieces)) ∧
      (rename (logging f) signature).log = pieceNames (scan signature.toList).pieces := by
  have asks := asks_rename (agrees_logging f) sound
  refine ⟨(asks.outcome (agrees_logging f)).2 ⟨fun name _ => rfl, rfl⟩, ?_⟩
  rw [asks.log fun name _ => ⟨f name, rfl⟩]
  exact List.flatMap_singleton' _

/-- **A signature with new names denotes exactly the new classes.** Where the new names can be read
and nesting is kept, the new signature is read without a fault, comes back if all its classes keep
their names, and names the new classes in the order in which the old signature names the old ones.
-/
theorem rename_denotes {f : String → String} (hf : KeepsNesting f) {signature text : String}
    (renamed : (rename (logging f) signature).outcome = .ok text) :
    (rename (logging id) text).outcome = .ok text ∧
      (rename (logging id) text).log = (rename (logging f) signature).log.map f := by
  have sound := fault_of_rename renamed
  obtain ⟨out, seen⟩ := rename_logging (f := f) sound
  have text_eq : text.toList = renamedPieces f [] (scan signature.toList).pieces := by
    rw [← Except.ok.inj (out.symm.trans renamed), String.toList_ofList]
  have image : scan text.toList = ⟨(scan signature.toList).pieces.map (Piece.map f), none⟩ := by
    rw [text_eq]
    have closed : ∀ name ∈ State.initial.around, IsName name := by
      simp [State.around, Mode.current, State.initial]
    exact ((reads_scan sound).map hf closed).scanFrom_eq 0
  have image_sound : (scan text.toList).fault = none := by rw [image]
  obtain ⟨again, named⟩ := rename_logging (f := id) image_sound
  have back := renamedPieces_scan (g := id) image_sound fun _ _ => rfl
  rw [again, named, seen, back, String.ofList_toList, image, pieceNames_map]
  exact ⟨rfl, rfl⟩

/-- New names that stand in a package of their own. -/
def inPackage (name : String) : String := "p/" ++ name

theorem keepsNesting_inPackage : KeepsNesting inPackage where
  isName name hn := by
    refine ⟨ne_of_apply_ne String.toList (by simp [inPackage]), fun c hc => ?_⟩
    rw [inPackage, String.toList_append, List.mem_append] at hc
    rcases hc with package | inside
    · have spelled : c = 'p' ∨ c = '/' := by simpa using package
      rcases spelled with rfl | rfl
      · rfl
      · rfl
    · exact hn.2 c inside
  nested outer inner _ hinner := ⟨inner, hinner.1, by simp [inPackage, String.append_assoc]⟩

/-- Three classes, one in the type arguments of another and one nested, with new names. -/
theorem rename_denotes_inPackage :
    let signature := "<T:Ljava/lang/Object;>La/Outer<+Lb/C;>.Inner<TT;>;"
    let text := "<T:Lp/java/lang/Object;>Lp/a/Outer<+Lp/b/C;>.Inner<TT;>;"
    KeepsNesting inPackage ∧ (rename (logging inPackage) signature).outcome = .ok text ∧
      (rename (logging id) text).outcome = .ok text ∧
      (rename (logging id) text).log =
        ["p/java/lang/Object", "p/a/Outer", "p/b/C", "p/a/Outer$Inner"] := by
  intro signature text
  have sound : (scan signature.toList).fault = none := by decide +kernel
  have written :
      String.ofList (renamedPieces inPackage [] (scan signature.toList).pieces) = text := by
    decide +kernel
  have renamed : (rename (logging inPackage) signature).outcome = .ok text :=
    (rename_logging sound).1.trans (congrArg Except.ok written)
  have seen : (rename (logging inPackage) signature).log =
      ["java/lang/Object", "a/Outer", "b/C", "a/Outer$Inner"] := by decide +kernel
  obtain ⟨again, named⟩ := rename_denotes keepsNesting_inPackage renamed
  refine ⟨keepsNesting_inPackage, renamed, again, ?_⟩
  rw [named, seen]
  decide

end Pseudonym.Signature
