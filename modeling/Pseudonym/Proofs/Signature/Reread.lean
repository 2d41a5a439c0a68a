import Pseudonym.Proofs.Signature.Reads

/-!
# Signatures that are read again

A signature with new names in it is read from the front. Up to the first class with a new name the
text is the one that was read before, and so are the states of the reader. If a class type starts
with that class, its new name is read as a whole, because no character in it ends a name
(`Reads.exists_reread`),

    a stays … , b becomes t  →  a and then t are read.

A new name that stands for a class nested in another one is cut down to a simple name, and what is
read again is that simple name behind the name of the outer class. So what is said here needs that
each class type with a new name in it starts with a new name (`Exposed`).
-/

namespace Pseudonym.Signature

open Text

/-! ### Nested classes -/

/-- The classes that pieces name inside others, each behind the class that its class type starts
with. `starts` holds the classes that the open class types start with, innermost first. -/
def nestings : (starts : List String) → List Piece → List (String × String)
  | _, [] => []
  | starts, .char _ :: pieces => nestings starts pieces
  | starts, .close :: pieces => nestings starts.tail pieces
  | starts, .outer name :: pieces => nestings (name :: starts) pieces
  | starts, .inner name :: pieces =>
    (starts.head?.map (·, name)).toList ++ nestings starts pieces

theorem fst_mem_of_mem_nestings {pieces : List Piece} {starts : List String} {e : String × String}
    (h : e ∈ nestings starts pieces) : e.1 ∈ starts ∨ e.1 ∈ pieceNames pieces := by
  induction pieces generalizing starts with
  | nil => cases h
  | cons piece pieces ih =>
    cases piece with
    | char c => exact ih h
    | close => exact (ih h).imp_left List.mem_of_mem_tail
    | outer name =>
      rcases ih h with start | named
      · rcases List.mem_cons.1 start with same | start
        · exact Or.inr (List.mem_cons.2 (Or.inl same))
        · exact Or.inl start
      · exact Or.inr (List.mem_cons_of_mem name named)
    | inner name =>
      rcases List.mem_append.1 h with here | there
      · obtain ⟨start, first, rfl⟩ := Option.map_eq_some_iff.1 (Option.mem_toList.1 here)
        exact Or.inl (List.mem_of_head? first)
      · exact (ih there).imp_right (List.mem_cons_of_mem name)

theorem snd_mem_of_mem_nestings {pieces : List Piece} {starts : List String} {e : String × String}
    (h : e ∈ nestings starts pieces) : e.2 ∈ pieceNames pieces := by
  induction pieces generalizing starts with
  | nil => cases h
  | cons piece pieces ih =>
    cases piece with
    | char c | close => exact ih h
    | outer name => exact List.mem_cons_of_mem name (ih h)
    | inner name =>
      rcases List.mem_append.1 h with here | there
      · obtain ⟨start, first, rfl⟩ := Option.map_eq_some_iff.1 (Option.mem_toList.1 here)
        exact List.mem_cons_self
      · exact List.mem_cons_of_mem name (ih there)

/-! ### New names -/

/-- What reading the new names of a signature again needs: what changes in a class type changes the
class that it starts with, and a new name can be read as one name. `starts` holds the classes that
the open class types start with. -/
structure Exposed (g : String → String) (starts : List String) (pieces : List Piece) : Prop where
  starts_stay : ∀ name ∈ starts, g name = name
  nested : ∀ e ∈ nestings starts pieces, g e.1 = e.1 → g e.2 = e.2
  readable : ∀ name ∈ pieceNames pieces, g name ≠ name → IsName (g name)

variable {g : String → String} {starts : List String} {pieces : List Piece} {part : Part}
  {enclosing : List String} {outer : Option String} {simple : List Char} {stop : Char}

theorem Exposed.of_char {c : Char} (h : Exposed g starts (.char c :: pieces)) :
    Exposed g starts pieces :=
  ⟨h.starts_stay, h.nested, h.readable⟩

theorem Exposed.of_close (h : Exposed g starts (.close :: pieces)) :
    Exposed g starts.tail pieces :=
  ⟨fun name hn => h.starts_stay name (List.mem_of_mem_tail hn), h.nested, h.readable⟩

/-- The classes that the open class types start with once a name in a class type was read. -/
def startsBehind (outer : Option String) (name : String) (starts : List String) : List String :=
  match outer with
  | none => name :: starts
  | some _ => starts

theorem length_startsBehind (name : String)
    (depth : starts.length = outer.toList.length + enclosing.length) :
    (startsBehind outer name starts).length = enclosing.length + 1 := by
  cases outer with
  | none => simpa [startsBehind] using depth
  | some outer => simpa [startsBehind, Nat.add_comm] using depth

theorem Exposed.of_segmentPiece (h : Exposed g starts (segmentPiece outer simple :: pieces))
    (stays : g (nestedName outer simple) = nestedName outer simple) :
    Exposed g (startsBehind outer (nestedName outer simple) starts) pieces := by
  cases outer with
  | none =>
    refine ⟨List.forall_mem_cons.2 ⟨stays, h.starts_stay⟩, h.nested, fun name hn => ?_⟩
    exact h.readable name (List.mem_cons_of_mem _ hn)
  | some name =>
    refine ⟨h.starts_stay, fun e he => ?_, fun name hn => ?_⟩
    · exact h.nested e (List.mem_append_right _ he)
    · exact h.readable name (List.mem_cons_of_mem _ hn)

/-- Behind a class that stays, the class types that are open start as they did, and with that class
if it starts one. -/
theorem Exposed.exists_behindName
    (h : Exposed g starts (segmentPiece outer simple :: stopPiece stop :: pieces))
    (stays : g (nestedName outer simple) = nestedName outer simple) (ends : endsName stop = true)
    (depth : starts.length = (State.around ⟨part, enclosing, .segment outer []⟩).length) :
    ∃ starts', starts'.length =
        (behindName part enclosing (nestedName outer simple) stop).around.length ∧
      Exposed g starts' pieces := by
  have behind := h.of_segmentPiece stays
  rw [around_segment, List.length_append] at depth
  have depth := length_startsBehind (nestedName outer simple) depth
  rcases around_behindName part enclosing (nestedName outer simple) ends with
    ⟨kept, around⟩ | ⟨rfl, around⟩
  · rw [kept] at behind
    exact ⟨_, by rw [around, depth, List.length_cons], behind.of_char⟩
  · exact ⟨_, by rw [around, List.length_tail, depth, Nat.add_sub_cancel], behind.of_close⟩

/-- A change inside a class that stays would not be exposed. -/
theorem Exposed.outer_eq_none_of_changed (h : Exposed g starts (segmentPiece outer simple :: pieces))
    (depth : starts.length = outer.toList.length + enclosing.length)
    (changed : g (nestedName outer simple) ≠ nestedName outer simple) : outer = none := by
  cases outer with
  | none => rfl
  | some name =>
    obtain ⟨start, starts, rfl⟩ := List.exists_cons_of_length_pos (l := starts) (by
      rw [depth, Option.toList_some, List.length_singleton]
      omega)
    have link : (start, nestedName (some name) simple) ∈
        nestings (start :: starts) (segmentPiece (some name) simple :: pieces) := by
      simp [segmentPiece, nestings]
    exact absurd (h.nested _ link (h.starts_stay start List.mem_cons_self)) changed

/-! ### Reading again -/

/-- A new name that stands first in a class type is read as one name. -/
theorem mem_pieceNames_of_isName {name : String} (readable : IsName (g name))
    (ends : endsName stop = true) (place : Nat) :
    g name ∈ pieceNames (scanFrom place ⟨part, enclosing, .segment none []⟩
      (renamedPieces g enclosing (.outer name :: stopPiece stop :: pieces))).pieces := by
  have full : (g name).toList ≠ [] := by simpa using readable.1
  obtain ⟨place', read⟩ := scanFrom_name part enclosing none ends full readable.2 place
    (renamedPieces g (behindName part enclosing (g name) stop).around pieces)
  rw [renamedPieces, renamedPieces_stopPiece part _ _ ends, read, pieceNames_segmentPiece,
    nestedName, String.ofList_toList]
  exact List.mem_cons_self

/-- **The first new name of a signature is read again.** -/
theorem Reads.exists_reread {s : State} {text : List Char} (h : Reads s text pieces)
    (depth : starts.length = s.around.length) (exposed : Exposed g starts pieces) {n : String}
    (hn : n ∈ pieceNames pieces) (changed : g n ≠ n) (place : Nat) :
    ∃ name ∈ pieceNames pieces, g name ≠ name ∧
      g name ∈ pieceNames (scanFrom place s (renamedPieces g s.around pieces)).pieces := by
  induction h generalizing starts place with
  | done => cases hn
  | @char s next c rest pieces _ stepped around _ ih =>
    obtain ⟨name, named, renamed, found⟩ :=
      ih (by rw [depth, around]) exposed.of_char hn (place + c.utf8Size)
    refine ⟨name, named, renamed, ?_⟩
    rw [renamedPieces, ← around, scanFrom, stepped]
    exact found
  | @close s next opened rest pieces _ stepped around _ ih =>
    obtain ⟨name, named, renamed, found⟩ :=
      ih (by simp [depth, around]) exposed.of_close hn (place + ';'.utf8Size)
    refine ⟨name, named, renamed, ?_⟩
    rw [around, renamedPieces, List.tail_cons, scanFrom, stepped]
    exact found
  | @name part enclosing outer simple stop rest pieces full letters ends _ ih =>
    by_cases stays : g (nestedName outer simple) = nestedName outer simple
    · -- both readings go on behind the class
      obtain ⟨starts', depth, behind⟩ := exposed.exists_behindName stays ends depth
      rw [pieceNames_segmentPiece, pieceNames_stopPiece] at hn ⊢
      have later := (List.mem_cons.1 hn).resolve_left (by rintro rfl; exact changed stays)
      obtain ⟨place', read⟩ := scanFrom_name part enclosing outer ends full letters place _
      obtain ⟨name, named, renamed, found⟩ := ih depth behind later place'
      refine ⟨name, List.mem_cons_of_mem _ named, renamed, ?_⟩
      rw [around_segment, renamedPieces_segmentPiece stays, renamedPieces_stopPiece part _ _ ends,
        read, pieceNames_segmentPiece, pieceNames_stopPiece]
      exact List.mem_cons_of_mem _ found
    · rw [around_segment, List.length_append] at depth
      obtain rfl := exposed.outer_eq_none_of_changed depth stays
      have named : nestedName none simple ∈
          pieceNames (segmentPiece none simple :: stopPiece stop :: pieces) := by
        rw [pieceNames_segmentPiece]
        exact List.mem_cons_self
      exact ⟨_, named, stays, mem_pieceNames_of_isName (exposed.readable _ named stays) ends place⟩

end Pseudonym.Signature
