import Pseudonym.Proofs.Signature.Image

/-!
# What is written behind a point

A class nested in another one is written as a suffix: what follows the new name of the outer class
and `$`, or else the last segment of its own new name. Whatever the new names are, as long as they
can be read at all, the new signature is read in the same steps as the old one, with one exception.
A new name that ends in `$` or `/` may leave nothing to write, and no class type has an empty
suffix. So

    the new signature is accepted  ↔  no suffix in it is empty,

for every renaming (`Reads.sound_spelled_iff`). The reader of the new text may see other classes than
the new ones, because a renaming need not keep nesting. It is only the shape of its state that
follows the reader of the old text (`step_of_shape`).
-/

namespace Pseudonym.Signature

open Text

/-! ### Suffixes -/

/-- Whether the last character of a name separates segments. -/
def EndsOpen (name : String) : Prop :=
  ∃ front c, name.toList = front ++ [c] ∧ isNameSeparator c = true

theorem lastSegment_eq (name : List Char) :
    lastSegment name = behindLast isNameSeparator name := rfl

theorem lastSegment_eq_nil_iff {name : List Char} (full : name ≠ []) :
    lastSegment name = [] ↔ ∃ front c, name = front ++ [c] ∧ isNameSeparator c = true := by
  rw [lastSegment_eq]
  constructor
  · intro empty
    rcases exists_last_stop isNameSeparator name with fresh | ⟨front, c, last, rfl, stops, fresh⟩
    · rw [behindLast_of_forall fresh] at empty
      exact absurd empty full
    · rw [behindLast_append_cons stops, behindLast_of_forall fresh] at empty
      exact ⟨front, c, by rw [empty], stops⟩
  · rintro ⟨front, c, rfl, stops⟩
    exact behindLast_append_cons stops front []

theorem mem_simpleName {outer nested : String} {c : Char} (h : c ∈ simpleName outer nested) :
    c ∈ nested.toList := by
  unfold simpleName at h
  split at h
  · next simple found =>
    rw [← List.append_eq_of_isPrefixOf?_eq_some found]
    exact List.mem_append_right _ h
  · exact (behindLast_spec isNameSeparator nested.toList).1.mem h

/-- Nothing is left to write for a class exactly if its name ends open and is not the name of the
class in front of it with something behind `$`. -/
theorem simpleName_eq_nil_iff {outer nested : String} (full : nested ≠ "") :
    simpleName outer nested = [] ↔
      EndsOpen nested ∧ ∀ simple, simple ≠ "" → nested ≠ outer ++ "$" ++ simple := by
  have cut (simple : String) (h : nested = outer ++ "$" ++ simple) :
      (outer.toList ++ ['$']).isPrefixOf? nested.toList = some simple.toList := by
    rw [List.isPrefixOf?_eq_some_iff_append_eq, h]
    simp
  unfold simpleName
  split
  · next simple found =>
    have spelled := (List.append_eq_of_isPrefixOf?_eq_some found).symm
    constructor
    · rintro rfl
      refine ⟨⟨outer.toList, '$', by simpa using spelled, rfl⟩, fun simple nonempty same => ?_⟩
      have rest := Option.some.inj (found.symm.trans (cut simple same))
      exact nonempty (by simpa using rest.symm)
    · rintro ⟨-, apart⟩
      by_cases nonempty : simple = []
      · exact nonempty
      · refine absurd (String.toList_injective ?_)
          (apart (String.ofList simple) (by simpa using nonempty))
        simpa using spelled
  · next alone =>
    rw [lastSegment_eq_nil_iff (by simpa using full)]
    constructor
    · intro ends
      refine ⟨ends, fun simple _ same => ?_⟩
      rw [cut simple same] at alone
      cases alone
    · exact fun h => h.1

/-! ### The shape of a state -/

/-- A state without its classes. -/
def State.shape (s : State) : State := s.map fun _ => ""

theorem Mirrors.exists_of_ok {f : String → String} {here : Step} {image : State}
    {pieces : List Piece} (h : Mirrors f here (.ok (image, pieces))) :
    ∃ next, here = .ok (next, pieces) ∧ next.map f = image := by
  generalize same : (Except.ok (image, pieces) : Step) = there at h
  cases h with
  | error fault fault' => cases same
  | ok next pieces' =>
    obtain ⟨rfl, rfl⟩ := Prod.mk.inj (Except.ok.inj same)
    exact ⟨next, rfl, rfl⟩

section

variable {s t : State}

theorem outside_of_shape (shape : t.shape = s.shape)
    (outside : ∀ outer reversed, s.mode ≠ .segment outer reversed) :
    ∀ outer reversed, t.mode ≠ .segment outer reversed := by
  obtain ⟨part, enclosing, mode⟩ := s
  obtain ⟨part', enclosing', mode'⟩ := t
  rintro outer reversed rfl
  have modes := congrArg State.mode shape
  cases mode with
  | segment outer reversed => exact outside outer reversed rfl
  | _ => cases modes

/-- Outside of names a reader in a state of the same shape takes the same steps. -/
theorem step_of_shape (shape : t.shape = s.shape)
    (outside : ∀ outer reversed, s.mode ≠ .segment outer reversed) {c : Char} {place : Nat}
    {next : State} {pieces : List Piece} (stepped : step s c place = .ok (next, pieces)) :
    ∃ next', next'.shape = next.shape ∧ ∀ place', step t c place' = .ok (next', pieces) := by
  have outside' := outside_of_shape shape outside
  have image := imageOf_step (f := fun _ => "") outside c place place next pieces stepped
  have mirrors := mirrors_step (f := fun _ => "") outside' c place place
  change Mirrors _ _ (step t.shape c place) at mirrors
  rw [shape] at mirrors
  change step s.shape c place = _ at image
  rw [image] at mirrors
  obtain ⟨next', stepped', same⟩ := mirrors.exists_of_ok
  exact ⟨next', same, step_at outside' stepped'⟩

theorem faultAtEnd_of_shape (shape : t.shape = s.shape) : t.faultAtEnd = s.faultAtEnd := by
  rw [← faultAtEnd_map (f := fun _ => "") t, ← faultAtEnd_map (f := fun _ => "") s]
  exact congrArg State.faultAtEnd shape

/-- Before a name, a state of the same shape is before a name, with as many classes open. -/
theorem exists_of_shape_segment {part : Part} {enclosing : List String} {outer : Option String}
    (shape : t.shape = State.shape ⟨part, enclosing, .segment outer []⟩) :
    ∃ enclosing' outer', t = ⟨part, enclosing', .segment outer' []⟩ ∧
      enclosing'.map (fun _ => "") = enclosing.map fun _ => "" := by
  obtain ⟨part', enclosing', mode⟩ := t
  obtain ⟨rfl, depth, modes⟩ := State.mk.inj shape
  cases mode with
  | segment outer' reversed =>
    obtain ⟨-, rfl⟩ := Mode.segment.inj modes
    exact ⟨enclosing', outer', rfl, depth⟩
  | _ => cases modes

theorem shape_behindName {part : Part} {enclosing enclosing' : List String}
    (depth : enclosing'.map (fun _ => "") = enclosing.map fun _ => "") (name name' : String)
    (stop : Char) :
    (behindName part enclosing' name' stop).shape = (behindName part enclosing name stop).shape := by
  rw [State.shape, map_behindName, depth, ← map_behindName (f := fun _ => "") name stop]
  rfl

end

/-! ### Spellings that are read -/

/-- A name in a class type is not empty. -/
theorem fault_scanFrom_stop {part : Part} {enclosing : List String} {outer : Option String}
    {stop : Char} (ends : endsName stop = true) (place : Nat) (rest : List Char) :
    (scanFrom place ⟨part, enclosing, .segment outer []⟩ (stop :: rest)).fault =
      some (.emptyName place) := by
  have refused : step ⟨part, enclosing, .segment outer []⟩ stop place =
      .error (.emptyName place) := by
    rcases (by simpa [endsName, or_assoc] using ends : stop = '<' ∨ stop = '.' ∨ stop = ';') with
      rfl | rfl | rfl <;> rfl
  rw [scanFrom, refused]

/-- **A spelling is read exactly if none of its suffixes is empty**, by any reader in a state of the
shape in which the pieces were read. -/
theorem Reads.sound_spelled_iff {start : String → List Char} {suffix : String → String → List Char}
    {s t : State} {text : List Char} {pieces : List Piece} (h : Reads s text pieces)
    (shape : t.shape = s.shape)
    (named : ∀ name ∈ starts pieces, start name ≠ [] ∧ ∀ c ∈ start name, endsName c = false)
    (letters : ∀ link ∈ links s.around pieces, ∀ c ∈ suffix link.1 link.2, endsName c = false)
    (place : Nat) :
    (scanFrom place t (spelled start suffix s.around pieces)).fault = none ↔
      ∀ link ∈ links s.around pieces, suffix link.1 link.2 ≠ [] := by
  induction h generalizing t place with
  | done may => simp [scanFrom, spelled, links, faultAtEnd_of_shape shape, may]
  | @char s next c rest pieces outside stepped around _ ih =>
    obtain ⟨next', shape', stepped'⟩ := step_of_shape shape outside (stepped 0)
    rw [around] at ih
    rw [spelled, scanFrom, stepped']
    exact ih shape' named letters _
  | @close s next name rest pieces outside stepped around _ ih =>
    obtain ⟨next', shape', stepped'⟩ := step_of_shape shape outside (stepped 0)
    rw [around, links, List.tail_cons] at letters
    rw [around, spelled, links, List.tail_cons, scanFrom, stepped']
    exact ih shape' named letters _
  | @name part enclosing outer simple stop rest pieces _ _ ends _ ih =>
    obtain ⟨enclosing', outer', rfl, depth⟩ := exists_of_shape_segment shape
    rw [starts_name] at named
    rw [links_name part ends] at letters
    rw [spelled_name part ends, links_name part ends, List.forall_mem_append]
    rw [List.forall_mem_append] at letters named
    have behind (written : List Char) :=
      ih (shape_behindName depth (nestedName outer simple) (nestedName outer' written) stop)
        named.2 letters.2
    have written : (∀ c ∈ segmentText start suffix outer (nestedName outer simple),
          endsName c = false) ∧
        (segmentText start suffix outer (nestedName outer simple) ≠ [] ↔
          ∀ link ∈ (outer.map (·, nestedName outer simple)).toList, suffix link.1 link.2 ≠ []) := by
      cases outer with
      | none => simpa [segmentText] using (named.1 _ List.mem_cons_self).symm
      | some outer => simpa [segmentText] using letters.1 _ List.mem_cons_self
    by_cases full : segmentText start suffix outer (nestedName outer simple) = []
    · rw [full, List.nil_append, fault_scanFrom_stop ends]
      constructor
      · intro refused
        cases refused
      · exact fun h => absurd full (written.2.2 h.1)
    · obtain ⟨place', read⟩ := scanFrom_name part enclosing' outer' ends full written.1 place _
      rw [read, behind _ place']
      exact (and_iff_right (written.2.1 full)).symm

/-! ### Renaming what was renamed -/

theorem isName_of_mem_links {f : String → String} {s : State} {text : List Char}
    {pieces : List Piece} (h : Reads s text pieces)
    (named : ∀ name ∈ pieceNames pieces, IsName (f name)) :
    (∀ name ∈ starts pieces, (f name).toList ≠ [] ∧ ∀ c ∈ (f name).toList, endsName c = false) ∧
      ∀ link ∈ links s.around pieces, f link.2 ≠ "" ∧
        ∀ c ∈ simpleName (f link.1) (f link.2), endsName c = false := by
  constructor
  · intro name hn
    obtain ⟨full, letters⟩ := named name (h.mem_starts hn).1
    exact ⟨by simpa using full, letters⟩
  · intro link hl
    obtain ⟨full, letters⟩ := named link.2 (h.mem_links hl).1
    exact ⟨full, fun c hc => letters c (mem_simpleName hc)⟩

/-- **A signature with new names is accepted unless a suffix has become empty.** The new names only
have to be such that a class type can show them; nesting need not be kept. A suffix becomes empty if
the new name of a nested class ends in a separator and is not the new name of the class in front of
it with something behind `$`. -/
theorem accepted_rename_iff {f : String → String} {signature text : String}
    (renamed : (rename (logging f) signature).outcome = .ok text)
    (named : ∀ name ∈ (rename (logging f) signature).log, IsName (f name)) (g : String → String) :
    (∃ again, (rename (logging g) text).outcome = .ok again) ↔
      ∀ link ∈ links [] (scan signature.toList).pieces, EndsOpen (f link.2) →
        ∃ simple, simple ≠ "" ∧ f link.2 = f link.1 ++ "$" ++ simple := by
  have sound := fault_of_rename renamed
  obtain ⟨out, seen⟩ := rename_logging (f := f) sound
  rw [seen] at named
  have reads := reads_scan sound
  obtain ⟨first, later⟩ := isName_of_mem_links reads named
  have text_eq : text.toList = spelled (fun name => (f name).toList)
      (fun outer name => simpleName (f outer) (f name)) [] (scan signature.toList).pieces := by
    rw [← Except.ok.inj (out.symm.trans renamed), String.toList_ofList]
    exact reads.renamedPieces_eq f
  have accepted : (∃ again, (rename (logging g) text).outcome = .ok again) ↔
      (scan text.toList).fault = none :=
    ⟨fun ⟨_, h⟩ => fault_of_rename h, fun h => ⟨_, (rename_logging h).1⟩⟩
  rw [accepted, text_eq]
  refine (reads.sound_spelled_iff rfl first (fun link hl => (later link hl).2) 0).trans
    (forall₂_congr fun link hl => ?_)
  rw [ne_eq, simpleName_eq_nil_iff (later link hl).1]
  grind

/-- New names for a class and a class nested in it that do not keep the nesting. -/
def flatName (name : String) : String :=
  if name = "a/Outer" then "p_a/p_Outer" else "p_a/p_Outer_0024Inner"

theorem isName_flatName (name : String) : IsName (flatName name) := by
  unfold flatName
  split
  · decide
  · decide

/-- A flat new name has a last segment to show. -/
theorem accepted_flatName :
    let signature := "La/Outer<TT;>.Inner;"
    let text := "Lp_a/p_Outer<TT;>.p_Outer_0024Inner;"
    (rename (logging flatName) signature).outcome = .ok text ∧
      (∀ name ∈ (rename (logging flatName) signature).log, IsName (flatName name)) ∧
      ∃ again, (rename (logging id) text).outcome = .ok again := by
  intro signature text
  have sound : (scan signature.toList).fault = none := by decide
  have written :
      String.ofList (renamedPieces flatName [] (scan signature.toList).pieces) = text := by
    decide
  have renamed : (rename (logging flatName) signature).outcome = .ok text :=
    (rename_logging sound).1.trans (congrArg Except.ok written)
  have named : ∀ name ∈ (rename (logging flatName) signature).log, IsName (flatName name) :=
    fun name _ => isName_flatName name
  have nests : links [] (scan signature.toList).pieces = [("a/Outer", "a/Outer$Inner")] := by
    decide
  refine ⟨renamed, named, (accepted_rename_iff renamed named id).2 ?_⟩
  rw [nests]
  rintro link hl ⟨front, c, ends, stops⟩
  obtain rfl : link = ("a/Outer", "a/Outer$Inner") := by simpa using hl
  have last : (flatName "a/Outer$Inner").toList.getLast? = some 'r' := by decide
  obtain rfl : c = 'r' := by simpa [ends] using last
  cases stops

/-- A class whose own name ends in `$` may keep its name where the class around it moves. -/
def movingOuter (name : String) : String :=
  if name = "a/Outer" then "b/Outer" else "a/Outer$Inner$"

/-- Then nothing is left to write for it, and the new signature is refused. -/
theorem rejected_movingOuter :
    let signature := "La/Outer.Inner$;"
    let text := "Lb/Outer.;"
    (∀ name, IsName (movingOuter name)) ∧
      (rename (logging movingOuter) signature).outcome = .ok text ∧
      ¬ ∃ g again, (rename (logging g) text).outcome = .ok again := by
  intro signature text
  have sound : (scan signature.toList).fault = none := by decide
  have written :
      String.ofList (renamedPieces movingOuter [] (scan signature.toList).pieces) = text := by
    decide
  refine ⟨fun name => ?_, (rename_logging sound).1.trans (congrArg Except.ok written), ?_⟩
  · unfold movingOuter
    split
    · decide
    · decide
  · rintro ⟨g, again, accepted⟩
    have refused : (scan text.toList).fault ≠ none := by decide
    exact refused (fault_of_rename accepted)

end Pseudonym.Signature
