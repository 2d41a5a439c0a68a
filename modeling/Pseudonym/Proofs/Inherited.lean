import Pseudonym.Proofs.Restore
import Pseudonym.Proofs.Signature.Acceptance

/-!
# What names inherit from a text

The names that a descriptor or a signature names are parts of its text, with one exception: a class
that is nested in another one is named by the name of that class, `$` and a part of the text. So a
property of texts that passes on to their parts, and from two texts to `outer$simple`, passes on to
all names (`Inherited.parameterNames`, `Inherited.methodNames`, `Inherited.signatureNames`). A text
that is malformed is no exception, where its names are those that were read in front of the fault.

That a text is free of markers is such a property (`inherited_unmarked`), because no marker holds a
`$`.
-/

namespace Pseudonym

open Descriptor Signature Text

/-- A property of texts that passes on to the names in them. -/
structure Inherited (P : String → Prop) : Prop where
  part {text name : String} (h : P text) (inside : name.toList <:+: text.toList) : P name
  nested {outer simple : String} (h : P outer) (h' : P simple) : P (outer ++ "$" ++ simple)

theorem inherited_true : Inherited fun _ => True := ⟨fun _ _ => trivial, fun _ _ => trivial⟩

/-! ### Markers -/

/-- Whether a text holds neither marker. -/
def Markers.Unmarked (m : Markers) (text : String) : Prop :=
  ¬ m.opening <:+: text.toList ∧ ¬ m.closing <:+: text.toList

/-- A text that stands on both sides of a character lies on one of them, if it does not hold the
character. -/
theorem infix_of_infix_append_cons {part before behind : List Char} {c : Char} (hc : c ∉ part)
    (h : part <:+: before ++ c :: behind) : part <:+: before ∨ part <:+: behind := by
  obtain ⟨front, rest, split⟩ := h
  rw [List.append_assoc] at split
  rcases List.append_eq_append_iff.1 split with ⟨gap, rfl, inside⟩ | ⟨gap, rfl, inside⟩
  · obtain ⟨after, rfl⟩ := prefix_of_notMem hc ⟨rest, inside⟩
    exact .inl ⟨front, after, List.append_assoc ..⟩
  · cases gap with
    | nil =>
      cases part with
      | nil => exact .inl List.nil_infix
      | cons d part =>
        obtain ⟨rfl, -⟩ := List.cons.inj inside
        exact absurd List.mem_cons_self hc
    | cons d gap =>
      obtain ⟨rfl, rfl⟩ := List.cons.inj inside
      exact .inr ⟨gap, rest, List.append_assoc ..⟩

theorem Markers.notMem_closing (m : Markers) {c : Char} (h : isTokenChar c = false) :
    c ∉ m.closing := by
  intro hc
  exact absurd (m.wellFormed.closing_chars c hc) (by simp [h])

theorem inherited_unmarked (m : Markers) : Inherited m.Unmarked where
  part h inside := ⟨fun opens => h.1 (opens.trans inside), fun closes => h.2 (closes.trans inside)⟩
  nested {outer simple} h h' := by
    have spelled : (outer ++ "$" ++ simple).toList = outer.toList ++ '$' :: simple.toList := by
      simp
    rw [Markers.Unmarked, spelled]
    constructor
    · intro opens
      exact (infix_of_infix_append_cons (m.not_mem_opening rfl) opens).elim h.1 h'.1
    · intro closes
      exact (infix_of_infix_append_cons (m.notMem_closing rfl) closes).elim h.2 h'.2

namespace Inherited

variable {P : String → Prop} (hP : Inherited P)

include hP

/-! ### Descriptors -/

theorem typeNames {d : String} {t : TypeDescriptor} (hd : P d)
    (parsed : TypeDescriptor.parse d = .ok t) : ∀ name ∈ t.elementName?.toList, P name := by
  intro name hn
  refine hP.part hd ?_
  rw [(toText_of_parse parsed).1]
  exact TypeDescriptor.name_infix name hn

theorem internalName {d name : String} (hd : P d) (h : Descriptor.internalName d = .ok name) :
    P name :=
  hP.typeNames hd (toList_of_internalName h).1 name (by
    simp [TypeDescriptor.elementName?, ElementType.name?])

/-- The parameters that can be read, whether or not the descriptor is malformed behind them. -/
theorem parameterNames {d : String} (hd : P d) :
    ∀ name ∈ (scanMethod d.toList).parameters.filterMap (·.element.name?), P name := by
  intro name hn
  rcases scanMethod_cases d.toList with ⟨behind, split, -⟩ | unopened
  · obtain ⟨t, ht, named⟩ := List.mem_filterMap.1 hn
    have inside : t.toText <:+: (scanMethod d.toList).parameters.flatMap FieldType.toText := by
      rw [List.flatMap_def]
      exact List.infix_of_mem_flatten (List.mem_map_of_mem ht)
    refine hP.part hd (((FieldType.name_infix name (by simp [named])).trans inside).trans ?_)
    exact ⟨['('], behind, by simpa using split.symm⟩
  · rw [unopened] at hn
    cases hn

theorem methodNames {d : String} {t : MethodDescriptor} (hd : P d)
    (parsed : MethodDescriptor.parse d = .ok t) : ∀ name ∈ t.names, P name := by
  intro name hn
  refine hP.part hd ?_
  rw [(MethodDescriptor.parse_eq_ok_iff_toText.1 parsed).2, String.toList_ofList]
  exact MethodDescriptor.name_infix name hn

/-! ### Signatures -/

theorem nestedName {outer : Option String} {simple : List Char} (ho : ∀ name ∈ outer.toList, P name)
    (hs : P (String.ofList simple)) : P (Signature.nestedName outer simple) := by
  cases outer with
  | none => exact hs
  | some outer => exact hP.nested (ho outer (by simp)) hs

/-- What a step of the reader passes on to the next state. -/
theorem of_step {s next : State} {c : Char} {place : Nat} {pieces : List Piece} {rest : List Char}
    (stepped : step s c place = .ok (next, pieces)) (around : ∀ name ∈ s.around, P name)
    (inside : P (String.ofList (s.mode.pending ++ c :: rest))) :
    (∀ name ∈ pieceNames pieces, P name) ∧ (∀ name ∈ next.around, P name) ∧
      P (String.ofList (next.mode.pending ++ rest)) := by
  have front : P (String.ofList s.mode.pending) := by
    refine hP.part inside ?_
    rw [String.toList_ofList, String.toList_ofList]
    exact (List.prefix_append _ _).isInfix
  have behind : P (String.ofList rest) := by
    refine hP.part inside ?_
    rw [String.toList_ofList, String.toList_ofList]
    exact ⟨s.mode.pending ++ [c], [], by simp⟩
  obtain ⟨part, enclosing, mode⟩ := s
  by_cases segment : ∃ outer reversed, mode = .segment outer reversed
  · obtain ⟨outer, reversed, rfl⟩ := segment
    rw [around_segment, List.forall_mem_append] at around
    by_cases ends : endsName c = true
    · have full : reversed ≠ [] := by
        rintro rfl
        rw [step_empty ends] at stepped
        cases stepped
      obtain ⟨simple, rfl⟩ : ∃ simple, reversed = simple.reverse := ⟨reversed.reverse, by simp⟩
      rw [step_name ends (by simpa using full)] at stepped
      obtain ⟨rfl, rfl⟩ := Prod.mk.inj (Except.ok.inj stepped)
      have named : P (Signature.nestedName outer simple) :=
        hP.nestedName around.1 (by simpa [Mode.pending] using front)
      rw [pieceNames_segmentPiece, pieceNames_stopPiece, pending_behindName]
      exact ⟨by simpa [pieceNames] using named, forall_around_behindName named around.2 ends, behind⟩
    · rw [Bool.not_eq_true] at ends
      obtain ⟨rfl, rfl⟩ := Prod.mk.inj (Except.ok.inj ((step_letter ends _ _).symm.trans stepped))
      refine ⟨by simp [pieceNames], ?_, ?_⟩
      · rwa [around_segment, List.forall_mem_append]
      · simpa [Mode.pending] using inside
  · rcases keeps_or_closes_of_step stepped (by simpa using segment) with
      ⟨rfl, same, fresh⟩ | ⟨rfl, rfl, name, same, fresh⟩
    · rw [same, fresh]
      exact ⟨by simp [pieceNames], around, behind⟩
    · rw [same, List.forall_mem_cons] at around
      rw [fresh]
      exact ⟨by simp [pieceNames], around.2, behind⟩

/-- What is read from a state on names classes that inherit from the classes in the state and from
the text, the beginning of a name included. -/
theorem pieceNames_scanFrom {text : List Char} {place : Nat} {s : State}
    (around : ∀ name ∈ s.around, P name) (inside : P (String.ofList (s.mode.pending ++ text))) :
    ∀ name ∈ pieceNames (scanFrom place s text).pieces, P name := by
  induction text generalizing place s with
  | nil => simp [scanFrom, pieceNames]
  | cons c rest ih =>
    cases stepped : step s c place with
    | error fault => simp [scanFrom, stepped, pieceNames]
    | ok result =>
      obtain ⟨next, pieces⟩ := result
      obtain ⟨here, around', inside'⟩ := hP.of_step stepped around inside
      simp only [scanFrom, stepped]
      rw [pieceNames_append, List.forall_mem_append]
      exact ⟨here, ih around' inside'⟩

theorem signatureNames {s : String} (hs : P s) : ∀ name ∈ names s, P name :=
  hP.pieceNames_scanFrom (by simp [State.around, State.initial, Mode.current])
    (by simpa [State.initial, Mode.pending] using hs)

end Inherited

end Pseudonym
