import Pseudonym.Proofs.Descriptor
import Pseudonym.Proofs.Signature.Descent

/-!
# The automaton descends

Reading a signature with an automaton and then renaming what was read comes to the same as renaming
while the signature is read, one function for each kind of type,

    Descent.rename f signature = Signature.rename f signature,

for every renaming, one that fails included. From a state of the automaton that expects a type, the
functions read this type, and the automaton goes on from the state behind it (`Reading`). The
functions call each other on shorter and shorter texts, and so the readings of all of them are
established together, by induction on the length of the text (`ReadsTypes`, `readsTypes`).
-/

namespace Pseudonym.Signature

open Descriptor Text

namespace Descent

section

variable {ω : Type} (f : String → Traced ω String) (signature : String)

/-! ### The automaton, from a state on -/

/-- What is written is given back, unless reading ended with a fault. -/
def ending (fault : Option DescriptorFault) (written : List Char) : Traced ω (List Char) :=
  match fault with
  | some fault => attempt signature (.error fault)
  | none => return written

/-- What the automaton makes of a text from a state on. `around` holds the new names of the class
types that are open, innermost first. -/
def run (place : Nat) (around : List String) (s : State) (text : List Char) :
    Traced ω (List Char) :=
  let found := scanFrom place s text
  renamePieces f around found.pieces >>= ending signature found.fault

/-- What is read from the front of a text leads the automaton from one state to another. -/
def Reading (s : State) (around : List String) (place : Nat) {text : List Char}
    (taken : Traced ω (Taken text)) (next : State) (around' : List String) : Prop :=
  run f signature place around s text =
    toEnd taken fun t => run f signature t.place around' next t.rest

variable {f signature}
variable {s next last : State} {around around' around'' : List String} {place : Nat} {c : Char}
  {text rest : List Char}

theorem map_ending (k : List Char → List Char) (fault : Option DescriptorFault)
    (x : Traced ω (List Char)) :
    k <$> x >>= ending signature fault = k <$> (x >>= ending signature fault) := by
  rw [bind_map_left, map_bind]
  refine bind_congr fun written => ?_
  cases fault with
  | none => rfl
  | some fault => rfl

theorem rename_eq_run :
    Signature.rename f signature =
      String.ofList <$> run f signature 0 [] .initial signature.toList := by
  rw [Signature.rename, run, map_bind]
  show renamePieces f [] (scan signature.toList).pieces >>= _ = _
  refine bind_congr fun written => ?_
  rw [show scanFrom 0 .initial signature.toList = scan signature.toList from rfl]
  cases (scan signature.toList).fault with
  | none => rfl
  | some fault => rfl

theorem run_nil : run f signature place around s [] = ending signature s.faultAtEnd [] := rfl

theorem run_fault {fault : DescriptorFault} (h : step s c place = .error fault) :
    run f signature place around s (c :: rest) = attempt signature (.error fault) := by
  rw [run, scanFrom, h]
  rfl

theorem run_char (h : step s c place = .ok (next, [.char c])) :
    run f signature place around s (c :: rest) =
      (c :: ·) <$> run f signature (place + c.utf8Size) around next rest := by
  rw [run, scanFrom, h]
  exact map_ending _ _ _

theorem run_close {new : String} (h : step s ';' place = .ok (next, [.close])) :
    run f signature place (new :: around) s (';' :: rest) =
      (';' :: ·) <$> run f signature (place + 1) around next rest := by
  rw [run, scanFrom, h]
  exact map_ending _ _ _

theorem renamePieces_segmentPiece (outer : Option (String × String)) (simple : List Char)
    (pieces : List Piece) :
    renamePieces f ((outer.map (·.2)).toList ++ around)
        (segmentPiece (outer.map (·.1)) simple :: pieces) =
      f (nestedName (outer.map (·.1)) simple) >>= fun renamed =>
        (shown (outer.map (·.2)) renamed ++ ·) <$> renamePieces f (renamed :: around) pieces := by
  cases outer with
  | none => rfl
  | some outer => rfl

theorem renamePieces_stopPiece (new : String) (stop : Char) (pieces : List Piece) :
    renamePieces f (new :: around) (stopPiece stop :: pieces) =
      (stop :: ·) <$> renamePieces f (if stop = ';' then around else new :: around) pieces := by
  by_cases closes : stop = ';'
  · subst closes
    rfl
  · rw [stopPiece, if_neg closes, if_neg closes]
    rfl

/-- A name in a class type and the character behind it: once the name is complete, the renaming is
asked for it. -/
theorem run_segment {part : Part} {enclosing : List String} (outer : Option (String × String))
    {simple : List Char} {stop : Char} (full : simple ≠ [])
    (letters : ∀ c ∈ simple, endsName c = false) (ends : endsName stop = true) :
    run f signature place ((outer.map (·.2)).toList ++ around)
        ⟨part, enclosing, .segment (outer.map (·.1)) []⟩ (simple ++ stop :: rest) =
      f (nestedName (outer.map (·.1)) simple) >>= fun renamed =>
        (shown (outer.map (·.2)) renamed ++ ·) <$> (stop :: ·) <$>
          run f signature (place + byteLength simple + stop.utf8Size)
            (if stop = ';' then around else renamed :: around)
            (behindName part enclosing (nestedName (outer.map (·.1)) simple) stop) rest := by
  rw [run, scanFrom_letters letters, List.append_nil, scanFrom, step_name ends full]
  dsimp only [List.cons_append, List.nil_append]
  rw [renamePieces_segmentPiece, bind_assoc]
  refine bind_congr fun renamed => ?_
  rw [map_ending, renamePieces_stopPiece, map_ending]
  rfl

/-! ### Readings -/

variable {taken : Traced ω (Taken text)}

theorem toEnd_cons (taken : Traced ω (Taken text)) :
    toEnd (Taken.cons c <$> taken) (fun t => run f signature t.place around s t.rest) =
      (c :: ·) <$> toEnd taken fun t => run f signature t.place around s t.rest := by
  rw [toEnd, toEnd, bind_map_left, map_bind]
  refine bind_congr fun t => ?_
  rw [← comp_map]
  rfl

theorem toEnd_append (first : Taken text) (behind : Traced ω (Taken first.rest)) :
    toEnd (first.append <$> behind) (fun t => run f signature t.place around s t.rest) =
      (first.written ++ ·) <$> toEnd behind fun t => run f signature t.place around s t.rest := by
  rw [toEnd, bind_map_left, toEnd, map_bind]
  refine bind_congr fun t => ?_
  rw [← comp_map]
  congr 1
  funext written
  exact List.append_assoc _ _ _

theorem toEnd_followedBy (taken : Traced ω (Taken text))
    (behind : (t : Taken text) → Traced ω (Taken t.rest)) :
    toEnd (followedBy taken behind) (fun t => run f signature t.place around s t.rest) =
      toEnd taken fun t => toEnd (behind t) fun t => run f signature t.place around s t.rest := by
  rw [toEnd, followedBy, bind_assoc]
  exact bind_congr fun t => toEnd_append t (behind t)

/-- What is done behind what was read matters only if something was read. -/
theorem toEnd_congr {k k' : Taken text → Traced ω (List Char)}
    (h : ∀ t, taken.outcome = .ok t → k t = k' t) : toEnd taken k = toEnd taken k' := by
  obtain ⟨log, outcome⟩ := taken
  cases outcome with
  | error e => rfl
  | ok t =>
    simp only [toEnd, bind, Traced.bind]
    rw [h t rfl]

namespace Reading

theorem cons (stepped : step last c place = .ok (s, [.char c]))
    (h : Reading f signature s around (place + c.utf8Size) taken next around') :
    Reading f signature last around place (.cons c <$> taken) next around' := by
  rw [Reading, toEnd_cons, run_char stepped, h]

theorem followedBy {behind : (t : Taken text) → Traced ω (Taken t.rest)}
    (h : Reading f signature s around place taken next around')
    (h' : ∀ t, taken.outcome = .ok t →
      Reading f signature next around' t.place (behind t) last around'') :
    Reading f signature s around place (Descent.followedBy taken behind) last around'' := by
  rw [Reading, toEnd_followedBy, h]
  exact toEnd_congr h'

theorem char (stepped : step s c place = .ok (next, [.char c])) :
    Reading f signature s around place (return .char c place rest) next around :=
  run_char stepped

theorem fault {fault : DescriptorFault}
    (h : run f signature place around s text = attempt signature (.error fault)) :
    Reading f signature s around place (attempt signature (.error fault) : Traced ω (Taken text))
      next around' := h

end Reading

/-! ### Texts up to a stop -/

theorem exists_stop (stops : Char → Bool) (text : List Char) :
    (∀ c ∈ text, stops c = false) ∨ ∃ name stop rest, text = name ++ stop :: rest ∧
      (∀ c ∈ name, stops c = false) ∧ stops stop = true := by
  induction text with
  | nil => exact .inl (by simp)
  | cons c text ih =>
    by_cases here : stops c = true
    · exact .inr ⟨[], c, text, rfl, by simp, here⟩
    · rw [Bool.not_eq_true] at here
      rcases ih with without | ⟨name, stop, rest, rfl, letters, found⟩
      · exact .inl (List.forall_mem_cons.2 ⟨here, without⟩)
      · exact .inr ⟨c :: name, stop, rest, rfl, List.forall_mem_cons.2 ⟨here, letters⟩, found⟩

/-- What reading up to a stop comes to: there is no stop, or it stands at the front, or it stands
behind a name. -/
inductive UpTo (stops : Char → Bool) (missing empty : DescriptorFault) (place : Nat) :
    (text : List Char) → Except DescriptorFault (Taken text) → Prop
  | missing {text : List Char} (without : ∀ c ∈ text, stops c = false) :
    UpTo stops missing empty place text (.error missing)
  | empty {stop : Char} {rest : List Char} (stop_stops : stops stop = true) :
    UpTo stops missing empty place (stop :: rest) (.error empty)
  | name {name : List Char} {stop : Char} {rest : List Char} (full : name ≠ [])
      (letters : ∀ c ∈ name, stops c = false) (stop_stops : stops stop = true)
      (shorter : (stop :: rest).length < (name ++ stop :: rest).length) :
    UpTo stops missing empty place (name ++ stop :: rest)
      (.ok ⟨name, place + byteLength name, stop :: rest, shorter⟩)

theorem upTo_readUntil (stops : Char → Bool) (missing empty : DescriptorFault) (place : Nat)
    (text : List Char) :
    UpTo stops missing empty place text (readUntil stops missing empty place text) := by
  rcases exists_stop stops text with without | ⟨name, stop, rest, rfl, letters, found⟩
  · have kept : ∀ c ∈ text, (!stops c) = true := by simpa using without
    have read : text.dropWhile (!stops ·) = [] := by
      rw [← List.append_nil text, List.dropWhile_append_of_pos kept, List.dropWhile_nil]
    rw [readUntil]
    simp only [read, List.isEmpty_nil, if_true]
    exact .missing without
  · have kept : ∀ c ∈ name, (!stops c) = true := by simpa using letters
    have stays : (name ++ stop :: rest).takeWhile (!stops ·) = name := by
      rw [List.takeWhile_append_of_pos kept, List.takeWhile_cons_of_neg (by simp [found]),
        List.append_nil]
    have goes : (name ++ stop :: rest).dropWhile (!stops ·) = stop :: rest := by
      rw [List.dropWhile_append_of_pos kept, List.dropWhile_cons_of_neg (by simp [found])]
    rw [readUntil]
    simp only [stays, goes, List.isEmpty_cons, Bool.false_eq_true, if_false]
    split
    · next empty =>
      subst empty
      exact .empty found
    · next full => exact .name full letters found _

/-- What was read up to a stop has a stop behind it. -/
theorem exists_stop_of_readUntil {stops : Char → Bool} {missing empty : DescriptorFault}
    {t : Taken text} (h : readUntil stops missing empty place text = .ok t) :
    ∃ stop rest, t.rest = stop :: rest ∧ stops stop = true := by
  have upTo := upTo_readUntil stops missing empty place text
  rw [h] at upTo
  cases upTo with
  | name full letters found shorter => exact ⟨_, _, rfl, found⟩

theorem run_letters {letters : List Char}
    (goes : ∀ c ∈ letters, ∀ place, step s c place = .ok (s, [.char c])) (more : List Char) :
    run f signature place around s (letters ++ more) =
      (letters ++ ·) <$> run f signature (place + byteLength letters) around s more := by
  induction letters generalizing place with
  | nil => exact (id_map _).symm
  | cons c letters ih =>
    rw [List.forall_mem_cons] at goes
    rw [List.cons_append, run_char (goes.1 place), ih goes.2, ← comp_map, byteLength_cons,
      Nat.add_assoc]
    rfl

/-- An identifier, which starts in the state `s` and goes on in the state `next`. -/
theorem reading_identifier {stops : Char → Bool} {missing empty : DescriptorFault}
    (starts : ∀ c ∈ text.head?, stops c = false → ∀ place, step s c place = .ok (next, [.char c]))
    (goes : ∀ c, stops c = false → ∀ place, step next c place = .ok (next, [.char c]))
    (refuses : ∀ c ∈ text.head?, stops c = true → ∀ place, step s c place = .error empty)
    (may : text = [] → s.faultAtEnd = some missing) (may' : next.faultAtEnd = some missing) :
    Reading f signature s around place
      (attempt signature (readUntil stops missing empty place text)) next around := by
  have upTo := upTo_readUntil stops missing empty place text
  rw [Reading]
  generalize readUntil stops missing empty place text = read at upTo
  cases upTo with
  | missing without =>
    cases text with
    | nil =>
      rw [run_nil, may rfl]
      rfl
    | cons c letters =>
      rw [List.forall_mem_cons] at without
      rw [run_char (starts c rfl without.1 place), ← List.append_nil letters,
        run_letters fun c hc => goes c (without.2 c hc), run_nil, may']
      rfl
  | empty found => exact run_fault (refuses _ rfl found place)
  | @name name stop rest full letters found shorter =>
    obtain ⟨c, name, rfl⟩ := List.exists_cons_of_ne_nil full
    rw [List.forall_mem_cons] at letters
    show run f signature place around s (c :: (name ++ stop :: rest)) =
      (c :: name ++ ·) <$>
        run f signature (place + byteLength (c :: name)) around next (stop :: rest)
    rw [run_char (starts c rfl letters.1 place), run_letters fun c hc => goes c (letters.2 c hc),
      ← comp_map, Nat.add_assoc, ← byteLength_cons]
    rfl

/-! ### Types -/

/-- In the state `s` the automaton does with the first character of a text what `first` does, and it
misses something if there is none. -/
structure Expects (first : State → Char → Nat → Step) (missing : DescriptorFault) (s : State)
    (text : List Char) : Prop where
  stepped : ∀ c ∈ text.head?, ∀ place, step s c place = first s c place
  atEnd : text = [] → s.faultAtEnd = some missing

/-- A type that is not primitive must follow. -/
abbrev ExpectsReference : State → List Char → Prop :=
  Expects stepReference .unexpectedSignatureEnd

/-- A type must follow. -/
abbrev ExpectsType : State → List Char → Prop := Expects stepType .unexpectedSignatureEnd

/-- The name of a type variable and the semicolon behind it. -/
theorem reading_variable (s : State) (around : List String) (place : Nat) (text : List Char) :
    Reading f signature (s.enter (.variable false)) around place
      (followedBy
        (attempt signature
          (readUntil (· == ';') .unexpectedSignatureEnd .emptyTypeVariable place text))
        fun name => attempt signature (readSemicolon name.place name.rest))
      s.endType around := by
  have goes (named : Bool) (c : Char) (other : (c == ';') = false) (place : Nat) :
      step (s.enter (.variable named)) c place =
        .ok (s.enter (.variable true), [.char c]) := by
    have other : c ≠ ';' := by simpa using other
    unfold step
    dsimp only [State.enter]
    split
    · exact absurd rfl other
    · rfl
  refine .followedBy
    (reading_identifier (fun c _ => goes false c) (goes true) ?_ (fun _ => rfl) rfl) ?_
  · intro c _ semicolon place
    obtain rfl : c = ';' := by simpa using semicolon
    rfl
  · intro name read
    have read : readUntil (· == ';') .unexpectedSignatureEnd .emptyTypeVariable place text =
        .ok name := located_eq_ok_iff.1 read
    obtain ⟨stop, rest, behind, semicolon⟩ := exists_stop_of_readUntil read
    obtain rfl : stop = ';' := by simpa using semicolon
    rw [behind]
    refine .char (s := s.enter (.variable true)) ?_
    rw [← endType_enter s (.variable true)]
    rfl

variable (f signature) in
/-- The functions read a text as the automaton does. -/
structure ReadsTypes (text : List Char) : Prop where
  reference : ∀ {s} around place, ExpectsReference s text →
    Reading f signature s around place (reference f signature place text) s.endType around
  javaType : ∀ {s} around place, ExpectsType s text →
    Reading f signature s around place (javaType f signature place text) s.endType around
  segment : ∀ part enclosing outer around place,
    Reading f signature ⟨part, enclosing, .segment (outer.map (·.1)) []⟩
      ((outer.map (·.2)).toList ++ around) place (segment f signature outer place text)
      (State.endType ⟨part, enclosing, .next⟩) around
  suffixes : ∀ part enclosing name renamed around place,
    Reading f signature ⟨part, enclosing, .closed name⟩ (renamed :: around) place
      (suffixes f signature name renamed place text) (State.endType ⟨part, enclosing, .next⟩) around
  arguments : ∀ part enclosing name around place,
    Reading f signature ⟨part, name :: enclosing, .next⟩ around place
      (arguments f signature place text) ⟨part, enclosing, .closed name⟩ around

section

variable (ih : ∀ shorter : List Char, shorter.length < text.length →
  ReadsTypes f signature shorter)

include ih

theorem reading_reference (expected : ExpectsReference s text) :
    Reading f signature s around place (reference f signature place text) s.endType around := by
  unfold Descent.reference
  split
  · exact .fault (by rw [run_nil, expected.atEnd rfl]; rfl)
  · next rest =>
    refine .cons (expected.stepped _ rfl place) ?_
    exact (ih rest (by simp)).segment s.part s.enclosing none around _
  · next rest =>
    exact .cons (expected.stepped _ rfl place) (reading_variable s around _ rest)
  · next rest =>
    refine .cons (expected.stepped _ rfl place) ?_
    have type : ExpectsType (s.enter .type) rest := ⟨fun _ _ _ => rfl, fun _ => rfl⟩
    have behind := (ih rest (by simp)).javaType around (place + 1) type
    rwa [endType_enter] at behind
  · next c rest noClass noVariable noArray =>
    refine .fault (run_fault ?_)
    rw [expected.stepped c rfl, stepReference]
    · exact noClass
    · exact noVariable
    · exact noArray

theorem reading_javaType (expected : ExpectsType s text) :
    Reading f signature s around place (javaType f signature place text) s.endType around := by
  unfold Descent.javaType
  split
  · exact reading_reference ih ⟨by simp, expected.atEnd⟩
  · next c rest =>
    split
    · next letter =>
      refine .char ?_
      rw [expected.stepped c rfl, stepType, if_pos letter]
      rfl
    · next other =>
      refine reading_reference ih ⟨fun d hd place => ?_, by simp⟩
      obtain rfl := Option.some.inj hd
      rw [expected.stepped c rfl, stepType, if_neg other]

theorem reading_suffixes (part : Part) (enclosing : List String) (name renamed : String)
    (around : List String) (place : Nat) :
    Reading f signature ⟨part, enclosing, .closed name⟩ (renamed :: around) place
      (suffixes f signature name renamed place text) (State.endType ⟨part, enclosing, .next⟩)
      around := by
  unfold Descent.suffixes
  split
  · next rest =>
    refine .cons (s := ⟨part, enclosing, .segment (some name) []⟩) rfl ?_
    exact (ih rest (by simp)).segment part enclosing (some (name, renamed)) around _
  · next noSuffix =>
    unfold readSemicolon
    split
    · exact .fault run_nil
    · next c rest =>
      split
      · next semicolon =>
        subst semicolon
        refine run_close ?_
        rw [← endType_enter ⟨part, enclosing, .next⟩ (.closed name)]
        rfl
      · next other =>
        refine .fault (run_fault ?_)
        show stepClosed _ name c place = _
        rw [stepClosed]
        · rintro rfl
          exact noSuffix rest rfl
        · exact other

theorem reading_arguments (part : Part) (enclosing : List String) (name : String)
    (around : List String) (place : Nat) :
    Reading f signature ⟨part, name :: enclosing, .next⟩ around place
      (arguments f signature place text) ⟨part, enclosing, .closed name⟩ around := by
  unfold Descent.arguments
  split
  · exact .fault run_nil
  · next rest => exact .char rfl
  · next rest =>
    refine .cons (s := ⟨part, name :: enclosing, .next⟩) rfl ?_
    exact (ih rest (by simp)).arguments part enclosing name around _
  · next c rest noEnd noStar =>
    split
    · next wildcard =>
      have opens : step ⟨part, name :: enclosing, .next⟩ c place =
          .ok (⟨part, name :: enclosing, .reference⟩, [.char c]) := by
        have either : c = '+' ∨ c = '-' := by simpa using wildcard
        rcases either with rfl | rfl
        · rfl
        · rfl
      have expected : ExpectsReference ⟨part, name :: enclosing, .reference⟩ rest :=
        ⟨fun _ _ _ => rfl, fun _ => rfl⟩
      have bound := (ih rest (by simp)).reference around (place + c.utf8Size) expected
      refine .cons opens (bound.followedBy fun bound _ => ?_)
      have shorter : bound.rest.length < (c :: rest).length := Nat.lt_succ_of_lt bound.shorter
      exact (ih bound.rest shorter).arguments part enclosing name around _
    · next plain =>
      have expected : ExpectsReference ⟨part, name :: enclosing, .next⟩ (c :: rest) := by
        refine ⟨?_, by simp⟩
        intro d hd place
        obtain rfl := Option.some.inj hd
        have others : c ≠ '+' ∧ c ≠ '-' := by simpa using plain
        show stepNext ⟨part, name :: enclosing, .next⟩ c place = _
        unfold stepNext
        dsimp only
        split
        · exact absurd rfl noEnd
        · exact absurd rfl noStar
        · exact absurd rfl others.1
        · exact absurd rfl others.2
        · rfl
      refine (reading_reference ih expected).followedBy fun first _ => ?_
      exact (ih first.rest first.shorter).arguments part enclosing name around _

/-- Behind a name in a class type. -/
theorem run_behindName {stop : Char} (split : text = stop :: rest) (ends : endsName stop = true)
    (part : Part) (enclosing : List String) (name renamed : String) (around : List String)
    (place : Nat) :
    (stop :: ·) <$> run f signature (place + stop.utf8Size)
        (if stop = ';' then around else renamed :: around)
        (behindName part enclosing name stop) rest =
      toEnd (behindSegment f signature name renamed place text) fun t =>
        run f signature t.place around (State.endType ⟨part, enclosing, .next⟩) t.rest := by
  subst split
  have plain := reading_suffixes ih part enclosing name renamed around place
  have stops : stop = '<' ∨ stop = '.' ∨ stop = ';' := by simpa [endsName, or_assoc] using ends
  rcases stops with rfl | rfl | rfl
  · have inside := (ih rest (by simp)).arguments part enclosing name (renamed :: around) (place + 1)
    rw [behindSegment, toEnd_cons, toEnd_followedBy]
    refine congrArg (('<' :: ·) <$> ·) (inside.trans (toEnd_congr fun t _ => ?_))
    exact (ih t.rest (Nat.lt_succ_of_lt t.shorter)).suffixes part enclosing name renamed around _
  · rw [behindSegment, ← plain]
    · exact (run_char rfl).symm
    · simp
  · rw [behindSegment, ← plain]
    · refine (run_close ?_).symm
      show _ = Except.ok (State.endType ⟨part, enclosing, .next⟩, _)
      rw [← endType_enter ⟨part, enclosing, .next⟩ (.closed name)]
      rfl
    · simp

theorem reading_segment (part : Part) (enclosing : List String) (outer : Option (String × String))
    (around : List String) (place : Nat) :
    Reading f signature ⟨part, enclosing, .segment (outer.map (·.1)) []⟩
      ((outer.map (·.2)).toList ++ around) place (segment f signature outer place text)
      (State.endType ⟨part, enclosing, .next⟩) around := by
  have upTo := upTo_readUntil endsName .unterminatedClassType (.emptyName place) place text
  rw [Reading, Descent.segment, readName]
  generalize readUntil endsName .unterminatedClassType (.emptyName place) place text = read at upTo
  cases upTo with
  | missing without =>
    rw [run, ← List.append_nil text, scanFrom_letters without]
    rfl
  | empty found => exact run_fault (step_empty found place)
  | @name name stop rest full letters found shorter =>
    rw [run_segment outer full letters found]
    show _ = toEnd (f _ >>= fun renamed => _ <$> _) _
    rw [toEnd, bind_assoc]
    refine bind_congr fun renamed => ?_
    rw [run_behindName (fun shorter' h => ih shorter' (Nat.lt_trans h shorter)) rfl found]
    exact (toEnd_append ⟨shown (outer.map (·.2)) renamed, _, stop :: rest, shorter⟩ _).symm

end

variable (f signature) in
/-- **Each kind of type is read as the automaton reads it.** -/
theorem readsTypes (text : List Char) : ReadsTypes f signature text := by
  -- A function that hands on the text it was given, as `javaType` does to `reference`, is read with
  -- the lemma about the other one, so that only shorter texts are left to the induction.
  have ih (shorter : List Char) (_ : shorter.length < text.length) := readsTypes shorter
  exact ⟨fun _ _ => reading_reference ih, fun _ _ => reading_javaType ih, reading_segment ih,
    reading_suffixes ih, reading_arguments ih⟩
termination_by text.length

/-! ### Type parameters -/

/-- A state among type parameters. -/
def amongParameters (mode : Mode) : State := ⟨.bounds, [], mode⟩

/-- A type parameter must follow, or the end of their list. -/
abbrev ExpectsTypeParameters (mode : Mode) : List Char → Prop :=
  Expects (fun s c _ => stepTypeParameters s c) .unterminatedTypeParameters (amongParameters mode)

/-- A colon may follow, or else a type parameter or the end of their list. -/
structure ExpectsBounds (mode : Mode) (text : List Char) : Prop where
  colon : text.head? = some ':' → ∀ place,
    step (amongParameters mode) ':' place = keep (amongParameters .bound) ':'
  others : text.head? ≠ some ':' → ExpectsTypeParameters mode text

variable (f signature) in
/-- The functions read type parameters as the automaton does. -/
structure ReadsTypeParameters (text : List Char) : Prop where
  typeParameters : ∀ {mode} around place, ExpectsTypeParameters mode text →
    Reading f signature (amongParameters mode) around place
      (typeParameters f signature place text) (amongParameters .body) around
  bounds : ∀ {mode} around place, ExpectsBounds mode text →
    Reading f signature (amongParameters mode) around place
      (bounds f signature place text) (amongParameters .body) around
  bound : ∀ around place, Reading f signature (amongParameters .bound) around place
    (bound f signature place text) (amongParameters .body) around

section

variable {mode : Mode} (ih : ∀ shorter : List Char, shorter.length < text.length →
  ReadsTypeParameters f signature shorter)

include ih

theorem reading_typeParameters (expected : ExpectsTypeParameters mode text) :
    Reading f signature (amongParameters mode) around place
      (typeParameters f signature place text) (amongParameters .body) around := by
  unfold Descent.typeParameters
  split
  · exact .fault (by rw [run_nil, expected.atEnd rfl]; rfl)
  · next rest => exact .char (expected.stepped _ rfl place)
  · next full noEnd =>
    have name : Reading f signature (amongParameters mode) around place
        (attempt signature
          (readUntil (· == ':') .unexpectedSignatureEnd .emptyTypeParameter place text))
        (amongParameters .typeParameter) around := by
      refine reading_identifier ?_ ?_ ?_ (fun empty => absurd empty full) rfl
      · intro c hc other place
        obtain ⟨rest, rfl⟩ := List.head?_eq_some_iff.1 hc
        rw [expected.stepped c hc, stepTypeParameters]
        · rfl
        · rintro rfl
          exact noEnd rest rfl
        · simpa using other
      · intro c other place
        have other : c ≠ ':' := by simpa using other
        unfold step
        dsimp only [amongParameters]
        split
        · exact absurd rfl other
        · rfl
      · intro c hc colon place
        obtain rfl : c = ':' := by simpa using colon
        rw [expected.stepped _ hc]
        rfl
    refine name.followedBy fun name read => ?_
    have read := located_eq_ok_iff.1 read
    obtain ⟨stop, rest, behind, colon⟩ := exists_stop_of_readUntil read
    obtain rfl : stop = ':' := by simpa using colon
    refine (ih name.rest name.shorter).bounds _ _ ⟨fun _ place => rfl, fun other => ?_⟩
    exact absurd (by rw [behind]; rfl) other

theorem reading_bounds (expected : ExpectsBounds mode text) :
    Reading f signature (amongParameters mode) around place
      (bounds f signature place text) (amongParameters .body) around := by
  unfold Descent.bounds
  split
  · next rest => exact .cons (expected.colon rfl place) ((ih rest (by simp)).bound around _)
  · next noColon =>
    refine reading_typeParameters ih (expected.others fun colon => ?_)
    obtain ⟨rest, rfl⟩ := List.head?_eq_some_iff.1 colon
    exact noColon rest rfl

theorem reading_bound :
    Reading f signature (amongParameters .bound) around place
      (bound f signature place text) (amongParameters .body) around := by
  unfold Descent.bound
  split
  · next starts =>
    have expected : ExpectsReference (amongParameters .bound) text := by
      refine ⟨fun c hc place => ?_, ?_⟩
      · rw [Option.mem_def.1 hc, Option.some.injEq, Option.some.injEq, Option.some.injEq] at starts
        rcases starts with rfl | rfl | rfl
        · rfl
        · rfl
        · rfl
      · rintro rfl
        simp at starts
    have type := (readsTypes f signature text).reference around place expected
    refine type.followedBy fun type _ => ?_
    refine (ih type.rest type.shorter).bounds _ _ ⟨fun _ _ => rfl, fun other => ⟨?_, fun _ => rfl⟩⟩
    intro c hc place
    show stepBounds (amongParameters .next) c = _
    rw [stepBounds]
    rintro rfl
    exact other hc
  · next none =>
    -- The bound is missing: behind the colon all is as behind a bound.
    refine reading_bounds ih ⟨fun _ _ => rfl, fun other => ⟨?_, fun _ => rfl⟩⟩
    intro c hc place
    rw [Option.mem_def.1 hc] at none other
    simp only [Option.some.injEq, not_or] at none
    unfold step
    dsimp only [amongParameters]
    split
    · exact absurd rfl none.1
    · exact absurd rfl none.2.1
    · exact absurd rfl none.2.2
    · rw [stepBounds]
      rintro rfl
      exact other rfl

end

variable (f signature) in
/-- **Type parameters are read as the automaton reads them.** -/
theorem readsTypeParameters (text : List Char) : ReadsTypeParameters f signature text := by
  have ih (shorter : List Char) (_ : shorter.length < text.length) := readsTypeParameters shorter
  exact ⟨fun _ _ => reading_typeParameters ih, fun _ _ => reading_bounds ih,
    fun _ _ => reading_bound ih⟩
termination_by text.length

/-! ### Signatures -/

theorem thrown_eq_run (place : Nat) (text : List Char) :
    thrown f signature place text = run f signature place [] ⟨.thrown, [], .next⟩ text := by
  unfold thrown
  split
  · rfl
  · next rest =>
    have stepped : step ⟨.thrown, [], .next⟩ '^' place =
        .ok (⟨.thrown, [], .reference⟩, [.char '^']) := rfl
    have expected : ExpectsReference ⟨.thrown, [], .reference⟩ rest :=
      ⟨fun _ _ _ => rfl, fun _ => rfl⟩
    have read := (readsTypes f signature rest).reference [] (place + 1) expected
    rw [run_char stepped]
    refine congrArg (('^' :: ·) <$> ·) ((toEnd_congr fun type _ => ?_).trans read.symm)
    exact thrown_eq_run type.place type.rest
  · next full noThrown =>
    obtain ⟨c, rest, rfl⟩ := List.exists_cons_of_ne_nil full
    refine (run_fault ?_).symm
    show stepNext ⟨.thrown, [], .next⟩ c place = _
    unfold stepNext
    dsimp only
    split
    · exact absurd rfl (noThrown rest)
    · rfl
termination_by text.length
decreasing_by
  have := type.shorter
  grind

theorem parameters_eq_run (place : Nat) (text : List Char) :
    parameters f signature place text = run f signature place [] ⟨.parameters, [], .next⟩ text := by
  unfold parameters
  split
  · next rest =>
    have stepped : step ⟨.parameters, [], .next⟩ ')' place =
        .ok (⟨.result, [], .type⟩, [.char ')']) := rfl
    have expected : ExpectsType ⟨.result, [], .type⟩ rest := ⟨fun _ _ _ => rfl, fun _ => rfl⟩
    have read := (readsTypes f signature rest).javaType [] (place + 1) expected
    rw [run_char stepped]
    refine congrArg ((')' :: ·) <$> ·) ((toEnd_congr fun result _ => ?_).trans read.symm)
    exact thrown_eq_run result.place result.rest
  · next noEnd =>
    have expected : ExpectsType ⟨.parameters, [], .next⟩ text := by
      refine ⟨fun c hc place => ?_, fun _ => rfl⟩
      obtain ⟨rest, rfl⟩ := List.head?_eq_some_iff.1 hc
      show stepNext ⟨.parameters, [], .next⟩ c place = _
      unfold stepNext
      dsimp only
      split
      · exact absurd rfl (noEnd rest)
      · rfl
    have read := (readsTypes f signature text).javaType [] place expected
    refine (toEnd_congr fun type _ => ?_).trans read.symm
    exact parameters_eq_run type.place type.rest
termination_by text.length
decreasing_by exact type.shorter

theorem supertypes_eq_run (place : Nat) (text : List Char) :
    supertypes f signature place text = run f signature place [] ⟨.supertypes, [], .next⟩ text := by
  match text with
  | [] =>
    rw [supertypes]
    rfl
  | c :: rest =>
    have expected : ExpectsReference ⟨.supertypes, [], .next⟩ (c :: rest) :=
      ⟨fun _ _ _ => rfl, by simp⟩
    have read := (readsTypes f signature (c :: rest)).reference [] place expected
    rw [supertypes]
    refine (toEnd_congr fun type _ => ?_).trans read.symm
    exact supertypes_eq_run type.place type.rest
termination_by text.length
decreasing_by exact type.shorter

/-- Where no type was read yet, the parameters of a method or supertypes follow. -/
theorem body_eq_run (opens : ∀ place, step s '(' place = keep ⟨.parameters, [], .next⟩ '(')
    (others : ∀ c ∈ text.head?, c ≠ '(' → step s c place = step ⟨.supertypes, [], .next⟩ c place)
    (may : text = [] → s.faultAtEnd = none) :
    body f signature place text = run f signature place [] s text := by
  unfold body
  split
  · next rest =>
    rw [parameters_eq_run, run_char (opens place)]
    rfl
  · next noMethod =>
    rw [supertypes_eq_run]
    cases text with
    | nil =>
      rw [run_nil, run_nil, may rfl]
      rfl
    | cons c rest =>
      have same := others c rfl fun method => noMethod rest (by rw [method])
      rw [run, run, scanFrom, scanFrom, same]

variable (f signature) in
/-- **Renaming a signature while it is read is renaming what was read.** -/
theorem rename_eq : rename f signature = Signature.rename f signature := by
  rw [rename_eq_run, rename]
  refine congrArg (String.ofList <$> ·) ?_
  split
  · next empty =>
    rw [empty]
    rfl
  · next rest opens =>
    have stepped : step .initial '<' 0 = .ok (amongParameters .typeParameters, [.char '<']) := rfl
    have expected : ExpectsTypeParameters .typeParameters rest :=
      ⟨fun _ _ _ => rfl, fun _ => rfl⟩
    have read := (readsTypeParameters f signature rest).typeParameters [] 1 expected
    rw [opens, run_char stepped]
    refine congrArg (('<' :: ·) <$> ·) ((toEnd_congr fun inside _ => ?_).trans read.symm)
    refine body_eq_run (fun _ => rfl) (fun c _ method => ?_) fun _ => rfl
    unfold step
    dsimp only [amongParameters]
    split
    · exact absurd rfl method
    · rfl
  · next full noParameters =>
    refine body_eq_run (fun _ => rfl) (fun c hc method => ?_) fun empty => absurd empty full
    obtain ⟨rest, opens⟩ := List.head?_eq_some_iff.1 hc
    unfold step
    dsimp only [State.initial]
    split
    · exact absurd opens (noParameters rest)
    · exact absurd rfl method
    · rfl

end

end Descent

end Pseudonym.Signature
