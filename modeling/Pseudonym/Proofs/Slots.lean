import Pseudonym.Proofs.Descriptor.ReadBack
import Pseudonym.Proofs.Signature.Reads

/-!
# A text that comes out as it was

A descriptor is a fixed text with slots for names, and so is a signature. Renaming fills the slots
anew (`Slotted`). If the text comes out as it was, the same names stand in it, but this is not clear
at first: a new name may be any text, with separators in it, and then the slots of the new text do
not end where those of the old one do.

Every slot is followed by a separator, and what stood in it was found up to there. So no old name
holds a separator, and if the two texts agree they have equally many of them. Then no new name holds
one either, and slot by slot the names are the same (`Slotted.eq`).

In a signature the slots behind points hold suffixes of names, so what follows for nested classes is
only that they show the same suffixes (`Signature.stays`).
-/

namespace Pseudonym

open Text Descriptor

/-- Two texts that differ only in what fills their slots. Each slot is given with what fills it in
the two texts, and is followed by a separator, which the first one does not hold. -/
inductive Slotted (sep : Char → Bool) :
    List (List Char × List Char) → List Char → List Char → Prop where
  | nil : Slotted sep [] [] []
  | char (c : Char) {slots : List (List Char × List Char)} {before now : List Char}
    (rest : Slotted sep slots before now) : Slotted sep slots (c :: before) (c :: now)
  | slot {old : List Char} (free : ∀ d ∈ old, sep d = false) (new : List Char) {c : Char}
    (stops : sep c = true) {slots : List (List Char × List Char)} {before now : List Char}
    (rest : Slotted sep slots before now) :
    Slotted sep ((old, new) :: slots) (old ++ c :: before) (new ++ c :: now)

namespace Slotted

variable {sep : Char → Bool} {slots more : List (List Char × List Char)}
  {before now before' now' : List Char}

theorem append (h : Slotted sep slots before now) (h' : Slotted sep more before' now') :
    Slotted sep (slots ++ more) (before ++ before') (now ++ now') := by
  induction h with
  | nil => exact h'
  | char c _ ih => exact .char c ih
  | slot free new stops _ ih =>
    rw [List.append_assoc, List.append_assoc]
    exact .slot free new stops ih

/-- A text without slots. -/
theorem fixed (sep : Char → Bool) (text : List Char) : Slotted sep [] text text := by
  induction text with
  | nil => exact .nil
  | cons c text ih => exact .char c ih

theorem countP_of_free {old : List Char} (free : ∀ d ∈ old, sep d = false) : old.countP sep = 0 := by
  rw [List.countP_eq_zero]
  intro d hd
  rw [free d hd]
  exact Bool.false_ne_true

/-- New names can only bring separators in. -/
theorem countP_le (h : Slotted sep slots before now) : before.countP sep ≤ now.countP sep := by
  induction h with
  | nil => exact Nat.le_refl _
  | char c _ ih =>
    rw [List.countP_cons, List.countP_cons]
    exact Nat.add_le_add_right ih _
  | slot free new _ _ ih =>
    rw [List.countP_append, List.countP_append, List.countP_cons, List.countP_cons,
      countP_of_free free, Nat.zero_add]
    exact Nat.le_trans (Nat.add_le_add_right ih _) (Nat.le_add_left _ _)

/-- Where no separators came in, no new name holds one. -/
theorem free_of_countP (h : Slotted sep slots before now)
    (count : now.countP sep ≤ before.countP sep) : ∀ s ∈ slots, ∀ d ∈ s.2, sep d = false := by
  induction h with
  | nil => simp
  | char c _ ih =>
    rw [List.countP_cons, List.countP_cons] at count
    exact ih (Nat.le_of_add_le_add_right count)
  | slot free new _ rest ih =>
    have least := rest.countP_le
    rw [List.countP_append, List.countP_append, List.countP_cons, List.countP_cons,
      countP_of_free free, Nat.zero_add] at count
    rw [List.forall_mem_cons]
    constructor
    · have none : new.countP sep = 0 := by omega
      simpa using none
    · exact ih (by omega)

/-- **In a text that comes out as it was, every slot is filled as it was.** -/
theorem eq (h : Slotted sep slots before now) (same : now = before) : ∀ s ∈ slots, s.2 = s.1 := by
  have free := h.free_of_countP (Nat.le_of_eq (by rw [same]))
  induction h with
  | nil => simp
  | char c _ ih => exact ih (List.cons.inj same).2 free
  | slot bare new stops _ ih =>
    rw [List.forall_mem_cons] at free ⊢
    obtain ⟨here, behind⟩ := (append_cons_inj stops free.1 bare).1 same
    exact ⟨here, ih behind free.2⟩

end Slotted

/-! ### Descriptors -/

section

variable {g : String → String}

/-- What fills the slot of a class before and after renaming. -/
def fillings (g : String → String) (names : List String) : List (List Char × List Char) :=
  names.map fun name => (name.toList, (g name).toList)

theorem stays_of_fillings {names : List String} (h : ∀ s ∈ fillings g names, s.2 = s.1) :
    ∀ name ∈ names, g name = name := by
  intro name hn
  exact String.toList_inj.1 (h _ (List.mem_map_of_mem hn))

/-- What ends the name of a class in a descriptor. -/
def endsObject (c : Char) : Bool := c == ';'

theorem ElementType.slotted {e : ElementType} (h : ∀ name ∈ e.name?.toList, IsClassName name) :
    Slotted endsObject (fillings g e.name?.toList) e.toText (e.renamed g).toText := by
  cases e with
  | primitive kind => exact .fixed endsObject _
  | object name =>
    have free : ∀ d ∈ name.toList, endsObject d = false := by
      intro d hd
      have other : d ≠ ';' := by
        rintro rfl
        exact IsClassName.notMem (h name (by simp [name?])) rfl hd
      simp [endsObject, other]
    exact .char 'L' (.slot free (g name).toList rfl .nil)

theorem FieldType.slotted {t : FieldType} (h : ∀ name ∈ t.element.name?.toList, IsClassName name) :
    Slotted endsObject (fillings g t.element.name?.toList) t.toText (t.renamed g).toText :=
  (Slotted.fixed endsObject _).append (ElementType.slotted h)

theorem TypeDescriptor.slotted {t : TypeDescriptor}
    (h : ∀ name ∈ t.elementName?.toList, IsClassName name) :
    Slotted endsObject (fillings g t.elementName?.toList) t.toText (t.renamed g).toText := by
  cases t with
  | void => exact .fixed endsObject _
  | value t => exact FieldType.slotted h

theorem FieldType.slotted_flatMap {ts : List FieldType}
    (h : ∀ name ∈ ts.filterMap (·.element.name?), IsClassName name) :
    Slotted endsObject (fillings g (ts.filterMap (·.element.name?))) (ts.flatMap FieldType.toText)
      ((ts.map (FieldType.renamed g)).flatMap FieldType.toText) := by
  induction ts with
  | nil => exact .nil
  | cons t ts ih =>
    have names : (t :: ts).filterMap (·.element.name?) =
        t.element.name?.toList ++ ts.filterMap (·.element.name?) := by
      rw [List.filterMap_cons]
      cases t.element.name? <;> rfl
    rw [names, List.forall_mem_append] at h
    rw [names, fillings, List.map_append]
    exact (FieldType.slotted h.1).append (ih h.2)

theorem MethodDescriptor.slotted {d : MethodDescriptor} (h : ∀ name ∈ d.names, IsClassName name) :
    Slotted endsObject (fillings g d.names) d.toText (d.renamed g).toText := by
  obtain ⟨ofParameters, ofResult⟩ := List.forall_mem_append.1 h
  rw [names, fillings, List.map_append]
  exact .char '(' ((FieldType.slotted_flatMap ofParameters).append
    (.char ')' (TypeDescriptor.slotted ofResult)))

/-- A type descriptor that comes out as it was names the same class. -/
theorem TypeDescriptor.stays {d : String} {t : TypeDescriptor}
    (parsed : TypeDescriptor.parse d = .ok t) (same : String.ofList (t.renamed g).toText = d) :
    ∀ name ∈ t.elementName?.toList, g name = name := by
  have texts : (t.renamed g).toText = t.toText := by
    rw [← (toText_of_parse parsed).1, ← same, String.toList_ofList]
  exact stays_of_fillings ((slotted (isClassName_of_parse parsed)).eq texts)

/-- A method descriptor that comes out as it was names the same classes. -/
theorem MethodDescriptor.stays {d : String} {t : MethodDescriptor}
    (parsed : MethodDescriptor.parse d = .ok t) (same : String.ofList (t.renamed g).toText = d) :
    ∀ name ∈ t.names, g name = name := by
  have texts : (t.renamed g).toText = t.toText := by
    obtain ⟨parameters, result⟩ := parse_eq_ok_iff.1 parsed
    have written := toText_of_scanMethod result
    rw [parameters, ← same, String.toList_ofList] at written
    exact written
  exact stays_of_fillings ((slotted (isClassName_of_parse parsed)).eq texts)

end

/-! ### Signatures -/

namespace Signature

/-- A spelling of an accepted signature differs from it in slots: one for each class that a class
type starts with, and one for each suffix. -/
theorem Reads.exists_slotted {s : State} {text : List Char} {pieces : List Piece}
    (h : Reads s text pieces) (start : String → List Char)
    (suffix : String → String → List Char) :
    ∃ slots, Slotted endsName slots text (spelled start suffix s.around pieces) ∧
      (∀ name ∈ starts pieces, (name.toList, start name) ∈ slots) ∧
      ∀ link ∈ links s.around pieces,
        (simpleName link.1 link.2, suffix link.1 link.2) ∈ slots := by
  induction h with
  | done => exact ⟨[], .nil, by simp [starts], by simp [links]⟩
  | @char s next c rest pieces _ _ around _ ih =>
    rw [around] at ih
    obtain ⟨slots, slotted, ofStarts, ofLinks⟩ := ih
    exact ⟨slots, .char c slotted, ofStarts, ofLinks⟩
  | @close s next name rest pieces _ _ around _ ih =>
    obtain ⟨slots, slotted, ofStarts, ofLinks⟩ := ih
    rw [around, spelled, links, List.tail_cons]
    exact ⟨slots, .char ';' slotted, ofStarts, ofLinks⟩
  | @name part enclosing outer simple stop rest pieces full letters ends _ ih =>
    obtain ⟨slots, slotted, ofStarts, ofLinks⟩ := ih
    rw [spelled_name part ends, links_name part ends, starts_name]
    refine ⟨_, .slot letters (segmentText start suffix outer (nestedName outer simple)) ends slotted,
      ?_, ?_⟩
    · intro name hn
      rcases List.mem_append.1 hn with here | there
      · cases outer with
        | none =>
          obtain rfl : name = nestedName none simple := by simpa using here
          rw [segmentText, nestedName, String.toList_ofList]
          exact List.mem_cons_self
        | some outer => cases here
      · exact List.mem_cons_of_mem _ (ofStarts name there)
    · intro link hl
      rcases List.mem_append.1 hl with here | there
      · cases outer with
        | none => cases here
        | some outer =>
          obtain rfl : link = (outer, nestedName (some outer) simple) := by simpa using here
          rw [segmentText, simpleName_nested]
          exact List.mem_cons_self
      · exact List.mem_cons_of_mem _ (ofLinks link there)

/-- **When a signature comes out as it was.** The classes that class types start with keep their
names, and the classes behind a point keep the suffixes that they show. -/
theorem stays {g : String → String} {s : String} (h : (scan s.toList).fault = none)
    (same : String.ofList (renamedPieces g [] (scan s.toList).pieces) = s) :
    (∀ name ∈ starts (scan s.toList).pieces, g name = name) ∧
      ∀ link ∈ links [] (scan s.toList).pieces,
        simpleName (g link.1) (g link.2) = simpleName link.1 link.2 := by
  have reads := reads_scan h
  obtain ⟨slots, slotted, ofStarts, ofLinks⟩ := reads.exists_slotted (fun name => (g name).toList)
    fun outer name => simpleName (g outer) (g name)
  have texts : renamedPieces g [] (scan s.toList).pieces = s.toList := by
    rw [← String.toList_ofList (l := renamedPieces g [] _), same]
  rw [← reads.renamedPieces_eq g] at slotted
  have filled := slotted.eq texts
  exact ⟨fun name hn => String.toList_inj.1 (filled _ (ofStarts name hn)),
    fun link hl => filled _ (ofLinks link hl)⟩

end Signature

end Pseudonym
