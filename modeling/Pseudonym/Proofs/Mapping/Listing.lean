import Mathlib.Data.List.Induction
import Pseudonym.Proofs.Mapping.Line
import Pseudonym.Proofs.Mapping.Table

/-!
# Mapping files

A mapping file is read line by line, and only its lines matter. It is refused for its first line
with a fault (`ofLines_of_fault`). A file without one makes a table that answers for each key with
the last line about it: this is an invariant of the lines read so far (`LastGiven`), and one more
line preserves it (`lastGiven_get?`).

A table writes lines that give its entries. So the file of a table is read as this table, up to the
local variables, which have no line: the last line about a key is the only one (`parse_toText`).
Whatever is read can be written again, because whatever a line gives is representable.
-/

namespace Pseudonym

open Text MappingEntry

namespace MappingTable

/-- Reads lines one after the other. -/
def ofLines (ls : List (List Char)) : Except Error MappingTable := ls.zipIdx.foldlM insertLine {}

theorem parse_eq_ofLines (text : String) : parse text = ofLines (lines text.toList) := rfl

variable {ls : List (List Char)} {line : List Char} {t : MappingTable}

theorem ofLines_concat (ls : List (List Char)) (line : List Char) :
    ofLines (ls ++ [line]) = ofLines ls >>= (insertLine · (line, ls.length)) := by
  rw [ofLines, List.zipIdx_append, List.foldlM_append]
  simp [ofLines]

/-- A line by itself is a file of its own. -/
theorem parse_ofList (h : '\n' ∉ line) : parse (String.ofList line) = insertLine {} (line, 0) := by
  rw [parse_eq_ofLines, String.toList_ofList, lines_of_notMem h]
  simp [ofLines]

theorem insertLine_eq_ok_iff {place : Nat} {t' : MappingTable} :
    t.insertLine (line, place) = .ok t' ↔
      ∃ given, ofLine line = .ok given ∧ t' = given.elim t t.insert := by
  rw [insertLine]
  split
  · next given read => simp [read, eq_comm]
  · next fault read => simp [read]

/-- A line that gives something can be inserted in any table. -/
theorem insertLine_of_ok {given : Option MappingEntry} (h : ofLine line = .ok given) (place : Nat) :
    t.insertLine (line, place) = .ok (given.elim t t.insert) :=
  insertLine_eq_ok_iff.2 ⟨given, h, rfl⟩

theorem insertLine_of_error {fault : LineFault} (h : ofLine line = .error fault) (place : Nat) :
    t.insertLine (line, place) = .error (.badMappingLine (place + 1) fault) := by
  rw [insertLine, h]

/-! ### Failures -/

/-- Lines without a fault are read. -/
theorem exists_of_forall_ok (h : ∀ line ∈ ls, ∃ given, ofLine line = .ok given) :
    ∃ t, ofLines ls = .ok t := by
  induction ls using List.reverseRecOn with
  | nil => exact ⟨{}, rfl⟩
  | append_singleton ls line ih =>
    obtain ⟨t, read⟩ := ih fun l hl => h l (by simp [hl])
    obtain ⟨given, found⟩ := h line (by simp)
    exact ⟨_, by rw [ofLines_concat, read]; exact insertLine_of_ok found _⟩

/-- The first line with a fault ends the reading. -/
theorem ofLines_of_fault {before after : List (List Char)} {fault : LineFault}
    (h : ∀ line ∈ before, ∃ given, ofLine line = .ok given) (hf : ofLine line = .error fault) :
    ofLines (before ++ line :: after) = .error (.badMappingLine (before.length + 1) fault) := by
  induction after using List.reverseRecOn with
  | nil =>
    obtain ⟨t, read⟩ := exists_of_forall_ok h
    rw [ofLines_concat, read]
    exact insertLine_of_error hf _
  | append_singleton after last ih =>
    rw [← List.cons_append, ← List.append_assoc, ofLines_concat, ih]
    rfl

/-- No line has a fault, or there is a first one that has. -/
theorem exists_first_fault (ls : List (List Char)) :
    (∀ line ∈ ls, ∃ given, ofLine line = .ok given) ∨
      ∃ before line after fault, ls = before ++ line :: after ∧
        (∀ line ∈ before, ∃ given, ofLine line = .ok given) ∧ ofLine line = .error fault := by
  induction ls with
  | nil => exact Or.inl (by simp)
  | cons line ls ih =>
    cases found : ofLine line with
    | error fault => exact Or.inr ⟨[], line, ls, fault, rfl, by simp, found⟩
    | ok given =>
      rcases ih with all | ⟨before, bad, after, fault, rfl, fine, hf⟩
      · exact Or.inl (List.forall_mem_cons.2 ⟨⟨given, found⟩, all⟩)
      · exact Or.inr ⟨line :: before, bad, after, fault, rfl,
          List.forall_mem_cons.2 ⟨⟨given, found⟩, fine⟩, hf⟩

theorem forall_ok_of_ofLines (h : ofLines ls = .ok t) :
    ∀ line ∈ ls, ∃ given, ofLine line = .ok given := by
  rcases exists_first_fault ls with all | ⟨before, line, after, fault, rfl, fine, bad⟩
  · exact all
  · rw [ofLines_of_fault fine bad] at h
    cases h

/-! ### The last line about a key -/

/-- What the last line gives about a key, if there is any line about it. -/
def LastGiven (ls : List (List Char)) (k : MappingKey) : Option String → Prop
  | some new => ∃ before line after, ls = before ++ line :: after ∧ Gives line (k.entry new) ∧
      ∀ later ∈ after, ∀ other, ¬ Gives later (k.entry other)
  | none => ∀ line ∈ ls, ∀ new, ¬ Gives line (k.entry new)

variable {k : MappingKey} {found : Option String} {new : String}

/-- A line about something else leaves the last line about a key the last. -/
theorem LastGiven.concat (h : LastGiven ls k found)
    (silent : ∀ other, ¬ Gives line (k.entry other)) : LastGiven (ls ++ [line]) k found := by
  cases found with
  | none =>
    intro l hl
    rcases List.mem_append.1 hl with before | last
    · exact h l before
    · exact List.mem_singleton.1 last ▸ silent
  | some new =>
    obtain ⟨before, l, after, rfl, gives, later⟩ := h
    refine ⟨before, l, after ++ [line], by simp, gives, ?_⟩
    exact List.forall_mem_append.2 ⟨later, List.forall_mem_singleton.2 silent⟩

theorem lastGiven_concat_of_gives (h : Gives line (k.entry new)) :
    LastGiven (ls ++ [line]) k (some new) :=
  ⟨ls, line, [], rfl, h, by simp⟩

theorem LastGiven.exists_line (h : LastGiven ls k (some new)) :
    ∃ line ∈ ls, Gives line (k.entry new) := by
  obtain ⟨before, line, after, rfl, gives, -⟩ := h
  exact ⟨line, by simp, gives⟩

/-- **A table answers with the last line about a key.** -/
theorem lastGiven_get? (h : ofLines ls = .ok t) (k : MappingKey) : LastGiven ls k (t.get? k) := by
  induction ls using List.reverseRecOn generalizing t with
  | nil =>
    obtain rfl : ({} : MappingTable) = t := Except.ok.inj h
    rw [get?_empty]
    exact fun line hl => absurd hl List.not_mem_nil
  | append_singleton ls line ih =>
    rw [ofLines_concat] at h
    obtain ⟨t', read, inserted⟩ := bind_eq_ok_iff.1 h
    obtain ⟨given, found, rfl⟩ := insertLine_eq_ok_iff.1 inserted
    cases given with
    | none =>
      refine (ih read).concat fun other gives => ?_
      rw [ofLine_eq_some_iff.2 gives] at found
      cases found
    | some e =>
      obtain ⟨k', new, rfl⟩ := e.exists_key
      have gives := ofLine_eq_some_iff.1 found
      rw [Option.elim_some, get?_insert]
      split
      · next same => exact lastGiven_concat_of_gives (same ▸ gives)
      · next other =>
        exact (ih read).concat fun new' gives' =>
          other (MappingKey.entry_inj (gives.unique gives')).1

/-! ### Files -/

theorem parse_ofList_eq_ok_iff (h : '\n' ∉ line) :
    (∃ t, parse (String.ofList line) = .ok t) ↔ ∃ given, ofLine line = .ok given := by
  rw [parse_ofList h]
  constructor
  · rintro ⟨t, read⟩
    obtain ⟨given, found, -⟩ := insertLine_eq_ok_iff.1 read
    exact ⟨given, found⟩
  · rintro ⟨given, found⟩
    exact ⟨_, insertLine_of_ok found _⟩

theorem parse_ofList_of_fault (h : '\n' ∉ line) {fault : LineFault}
    (hf : ofLine line = .error fault) :
    parse (String.ofList line) = .error (.badMappingLine 1 fault) := by
  rw [parse_ofList h]
  exact insertLine_of_error hf 0

/-- A carriage return at the end of a line makes no difference. -/
theorem parse_ofList_append_return (h : '\n' ∉ line) :
    parse (String.ofList (line ++ ['\r'])) = parse (String.ofList line) := by
  have words : wordsOfLine (line ++ ['\r']) = wordsOfLine line := by
    rw [wordsOfLine, words_append_cons (by decide)]
    exact congrArg _ (List.append_nil _)
  have same : ofLine (line ++ ['\r']) = ofLine line := by rw [ofLine, ofLine, words]
  rw [parse_ofList h, parse_ofList (by simpa using h), insertLine, insertLine, same]

/-- A file is refused for the first of its lines that is refused by itself. -/
theorem exists_of_parse_eq_error {text : String} {e : Error} (h : parse text = .error e) :
    ∃ before line after fault, lines text.toList = before ++ line :: after ∧
      (∀ earlier ∈ before, ∃ t, parse (String.ofList earlier) = .ok t) ∧
        parse (String.ofList line) = .error (.badMappingLine 1 fault) ∧
          e = .badMappingLine (before.length + 1) fault := by
  rw [parse_eq_ofLines] at h
  have inside : ∀ line ∈ lines text.toList, '\n' ∉ line := fun _ => notMem_of_mem_lines
  rcases exists_first_fault (lines text.toList) with
    all | ⟨before, line, after, fault, cut, fine, bad⟩
  · obtain ⟨t, read⟩ := exists_of_forall_ok all
    rw [read] at h
    cases h
  · rw [cut, ofLines_of_fault fine bad] at h
    rw [cut, List.forall_mem_append, List.forall_mem_cons] at inside
    exact ⟨before, line, after, fault, cut,
      fun l hl => (parse_ofList_eq_ok_iff (inside.1 l hl)).2 (fine l hl),
      parse_ofList_of_fault inside.2.1 bad, (Except.error.inj h).symm⟩

/-- An entry with the descriptor of a field precedes one that leaves it open. -/
theorem field?_eq_or (t : MappingTable) (owner name d : String) :
    t.field? owner name d =
      (t.get? (.field ⟨owner, name, some d⟩)).or (t.get? (.field ⟨owner, name, none⟩)) := by
  rw [field?, get?, get?]
  split
  · next new found => rw [found]; rfl
  · next none => rw [none]; rfl

/-- **Mapping files are read line by line.**  A file is refused exactly if one of its lines is
refused as a file of its own, and its fault is the one of the first such line, with the number of
this line. Otherwise classes and methods have the new name of the last line about them. Fields have
the one of the last line with their descriptor, or else of the last line that leaves it open,
whatever the order of these lines is. Carriage returns in front of line feeds make no
difference. -/
theorem reads_line_by_line (text : String) :
    ((∃ e, parse text = .error e) ↔
        ∃ line ∈ lines text.toList, ∃ e, parse (String.ofList line) = .error e) ∧
      (∀ e, parse text = .error e → ∃ before line after fault,
        lines text.toList = before ++ line :: after ∧
          (∀ earlier ∈ before, ∃ t, parse (String.ofList earlier) = .ok t) ∧
            parse (String.ofList line) = .error (.badMappingLine 1 fault) ∧
              e = .badMappingLine (before.length + 1) fault) ∧
      (∀ line ∈ lines text.toList,
        parse (String.ofList (line ++ ['\r'])) = parse (String.ofList line)) ∧
      ∀ t, parse text = .ok t →
        (∀ name, ∃ found, t.mapping.className name = .ok found ∧
          LastGiven (lines text.toList) (.class name) found) ∧
        (∀ owner name d, ∃ found, t.mapping.methodName owner name d = .ok found ∧
          LastGiven (lines text.toList) (.method ⟨owner, name, d⟩) found) ∧
        ∀ owner name d, ∃ typed untyped,
          t.mapping.fieldName owner name d = .ok (typed.or untyped) ∧
          LastGiven (lines text.toList) (.field ⟨owner, name, some d⟩) typed ∧
          LastGiven (lines text.toList) (.field ⟨owner, name, none⟩) untyped := by
  refine ⟨⟨?_, ?_⟩, fun e => exists_of_parse_eq_error,
    fun line hl => parse_ofList_append_return (notMem_of_mem_lines hl), ?_⟩
  · rintro ⟨e, h⟩
    obtain ⟨before, line, after, fault, cut, -, alone, -⟩ := exists_of_parse_eq_error h
    exact ⟨line, by simp [cut], _, alone⟩
  · rintro ⟨line, hl, e, alone⟩
    cases h : parse text with
    | error e => exact ⟨e, rfl⟩
    | ok t =>
      obtain ⟨t', fine⟩ := (parse_ofList_eq_ok_iff (notMem_of_mem_lines hl)).2
        (forall_ok_of_ofLines h line hl)
      rw [alone] at fine
      cases fine
  · intro t h
    refine ⟨?_, ?_, ?_⟩
    · exact fun name => ⟨_, rfl, lastGiven_get? h (.class name)⟩
    · exact fun owner name d => ⟨_, rfl, lastGiven_get? h (.method ⟨owner, name, d⟩)⟩
    · intro owner name d
      refine ⟨_, _, ?_, lastGiven_get? h (.field ⟨owner, name, some d⟩),
        lastGiven_get? h (.field ⟨owner, name, none⟩)⟩
      exact congrArg Except.ok (field?_eq_or t owner name d)

/-- A class is named twice, and a typed line about a field stands between two open ones. In another
file the second line is the first one with a fault. -/
theorem reads_line_by_line_overriding :
    let file := "a/A b/B\na/A.x first\na/A.x I typed # a count\r\n\na/A.x second\na/A c/C"
    let broken := "a/A b/B\r\na/A.m(I x\na b c d"
    (∃ t typed untyped, parse file = .ok t ∧ t.mapping.className "a/A" = .ok (some "c/C") ∧
      LastGiven (lines file.toList) (.class "a/A") (some "c/C") ∧
      t.mapping.fieldName "a/A" "x" "I" = .ok (some "typed") ∧ typed.or untyped = some "typed" ∧
      LastGiven (lines file.toList) (.field ⟨"a/A", "x", some "I"⟩) typed ∧
      LastGiven (lines file.toList) (.field ⟨"a/A", "x", none⟩) untyped) ∧
    ∃ before line after fault, lines broken.toList = before ++ line :: after ∧ before.length = 1 ∧
      parse broken = .error (.badMappingLine 2 fault) ∧
        parse (String.ofList line) = .error (.badMappingLine 1 fault) := by
  intro file broken
  constructor
  · have answers : (parse file).toOption.map
        (fun t => (t.classes["a/A"]?, t.field? "a/A" "x" "I")) =
          some (some "c/C", some "typed") := by
      decide +kernel
    obtain ⟨t, read, names⟩ := Option.map_eq_some_iff.1 answers
    obtain ⟨className, fieldName⟩ := Prod.mk.inj names
    have h := toOption_eq_some_iff.1 read
    obtain ⟨classes, -, fields⟩ := (reads_line_by_line file).2.2.2 t h
    obtain ⟨found, looked, lastClass⟩ := classes "a/A"
    obtain ⟨typed, untyped, here, lastTyped, lastUntyped⟩ := fields "a/A" "x" "I"
    have fieldName' : t.mapping.fieldName "a/A" "x" "I" = .ok (some "typed") :=
      congrArg Except.ok fieldName
    obtain rfl : some "c/C" = found := className ▸ Except.ok.inj looked
    exact ⟨t, typed, untyped, h, looked, lastClass, fieldName', Except.ok.inj (here ▸ fieldName'),
      lastTyped, lastUntyped⟩
  · have fails := error?_eq_some_iff.1 (show error? (parse broken) =
      some (.badMappingLine 2 (.descriptor "(I" .unterminatedParameters)) by decide +kernel)
    obtain ⟨before, line, after, fault, cut, -, alone, same⟩ :=
      (reads_line_by_line broken).2.1 _ fails
    obtain ⟨place, rfl⟩ := Error.badMappingLine.inj same
    exact ⟨before, line, after, _, cut, by omega, fails, alone⟩

/-! ### Files of tables -/

theorem lines_toText (h : ∀ e ∈ t.entries, Representable e) :
    lines t.toText.toList = (t.entries.filterMap toLine?).map String.toList ++ [[]] := by
  have text : t.toText.toList =
      ((t.entries.filterMap toLine?).map String.toList).flatMap (· ++ ['\n']) := by
    simp [toText, String.toList_join, List.flatMap_map]
  rw [text]
  refine lines_flatMap ?_
  simp only [List.forall_mem_map, List.mem_filterMap, forall_exists_index, and_imp]
  intro line e he written
  obtain ⟨line', written', -, outside⟩ := gives_of_representable (h e he)
  rw [written] at written'
  exact Option.some.inj written' ▸ outside

/-- **A table is read from its own file** if it can be written. -/
theorem parse_toText (h : ∀ e ∈ t.entries, Representable e) : parse t.toText = .ok t := by
  have written : ∀ line ∈ lines t.toText.toList, line = [] ∨ ∃ e ∈ t.entries, Gives line e := by
    intro line hl
    rw [lines_toText h] at hl
    rcases List.mem_append.1 hl with entry | last
    · obtain ⟨text, hw, rfl⟩ := List.mem_map.1 entry
      obtain ⟨e, he, here⟩ := List.mem_filterMap.1 hw
      obtain ⟨line', here', gives, -⟩ := gives_of_representable (h e he)
      rw [here] at here'
      exact Or.inr ⟨e, he, Option.some.inj here' ▸ gives⟩
    · exact Or.inl (List.mem_singleton.1 last)
  have complete : ∀ e ∈ t.entries, ∃ line ∈ lines t.toText.toList, Gives line e := by
    intro e he
    obtain ⟨line, here, gives, -⟩ := gives_of_representable (h e he)
    refine ⟨line.toList, ?_, gives⟩
    rw [lines_toText h]
    exact List.mem_append_left _ (List.mem_map_of_mem (List.mem_filterMap.2 ⟨e, he, here⟩))
  obtain ⟨t', read⟩ : ∃ t', ofLines (lines t.toText.toList) = .ok t' := by
    refine exists_of_forall_ok fun line hl => ?_
    rcases written line hl with rfl | ⟨e, -, gives⟩
    · exact ⟨none, rfl⟩
    · exact ⟨some e, ofLine_eq_some_iff.2 gives⟩
  have same : t' = t := by
    refine ext_get? fun k => ?_
    have last := lastGiven_get? read k
    cases found : t'.get? k with
    | none =>
      rw [found] at last
      refine (Option.eq_none_iff_forall_ne_some.2 fun new here => ?_).symm
      obtain ⟨line, hl, gives⟩ := complete _ (mem_entries.2 here)
      exact last line hl new gives
    | some new =>
      rw [found] at last
      obtain ⟨line, hl, gives⟩ := last.exists_line
      rcases written line hl with rfl | ⟨e, he, gives'⟩
      · have silent : ofLine [] = .ok none := rfl
        rw [ofLine_eq_some_iff.2 gives] at silent
        cases silent
      · exact (mem_entries.1 (gives.unique gives' ▸ he)).symm
  rw [parse_eq_ofLines, read, same]

/-- A table without the entries that have no written form. -/
def written (t : MappingTable) : MappingTable := { t with localVariables := ∅ }

theorem toText_written (t : MappingTable) : t.written.toText = t.toText := by
  have silent (locals : Std.ExtTreeMap VariableKey String) :
      (locals.toList.map fun e => MappingEntry.variable e.1 e.2).filterMap toLine? = [] := by
    simp [List.filterMap_eq_nil_iff, toLine?]
  have shown (t : MappingTable) : t.entries.filterMap toLine? =
      (t.classes.toList.map (fun e => MappingEntry.class e.1 e.2) ++
        t.fields.toList.map (fun e => MappingEntry.field e.1 e.2) ++
          t.methods.toList.map fun e => MappingEntry.method e.1 e.2).filterMap toLine? := by
    rw [entries, List.filterMap_append, silent, List.append_nil]
  rw [toText, toText, shown, shown]
  rfl

/-- What a file gives can be written. -/
theorem representable_of_parse {text : String} (h : parse text = .ok t) :
    ∀ e ∈ t.entries, Representable e := by
  intro e he
  obtain ⟨k, new, rfl⟩ := e.exists_key
  have last := lastGiven_get? h k
  rw [mem_entries.1 he] at last
  obtain ⟨line, -, gives⟩ := last.exists_line
  exact representable_of_gives gives

/-- **Mapping files round-trip.**  What is written of a table is read from its file, provided it can
be written. A table that was read can be written, and comes back with its file. -/
theorem mapping_file_round_trip :
    (∀ t : MappingTable, (∀ e ∈ t.written.entries, Representable e) →
        parse t.toText = .ok t.written) ∧
      ∀ (text : String) (t : MappingTable), parse text = .ok t →
        (∀ e ∈ t.entries, Representable e) ∧ parse t.toText = .ok t ∧
          toText <$> parse t.toText = .ok t.toText := by
  constructor
  · intro t h
    rw [← toText_written, parse_toText h]
  · intro text t h
    have again := parse_toText (representable_of_parse h)
    exact ⟨representable_of_parse h, again, by rw [again]; rfl⟩

/-- A table with an entry of each kind, an owner with a point and a parenthesis, and a local
variable that is left out; and a file with comments and lines that end in two ways. -/
theorem mapping_file_round_trip_commented :
    let t := ofEntries [.class "a/A" "b/B", .field ⟨"a/A", "x", none⟩ "y",
      .field ⟨"a.A(", "x", some "[La/A;"⟩ "z",
      .method ⟨"a.A", "m", "(I)La/A;"⟩ "run", .variable ⟨⟨"a/A", "m", "()V"⟩, 1⟩ "i"]
    let file := "# names\r\na/A b/B\r\n\n  a/A.x(  I y # a count\na/A.m()V run"
    parse t.toText = .ok t.written ∧
      ∃ t', parse file = .ok t' ∧ t'.size = 3 ∧ parse t'.toText = .ok t' := by
  intro t file
  constructor
  · refine mapping_file_round_trip.1 t ?_
    have listed : t.written.entries = [.class "a/A" "b/B", .field ⟨"a.A(", "x", some "[La/A;"⟩ "z",
        .field ⟨"a/A", "x", none⟩ "y", .method ⟨"a.A", "m", "(I)La/A;"⟩ "run"] := by
      decide +kernel
    have array : TypeDescriptor.parse "[La/A;" = .ok (.value ⟨1, .object "a/A"⟩) :=
      toOption_eq_some_iff.1 (by decide +kernel)
    have method : MethodDescriptor.parse "(I)La/A;" =
        .ok ⟨[⟨0, .primitive .int⟩], .value ⟨0, .object "a/A"⟩⟩ :=
      toOption_eq_some_iff.1 (by decide +kernel)
    have shown : ∀ word ∈ ["a/A", "a.A", "a.A(", "b/B", "y", "z", "run"], IsShown word.toList := by
      decide +kernel
    have words : ∀ word ∈ ["x", "m", "[La/A;", "(I)La/A;"], IsWord word.toList := by
      decide +kernel
    rw [listed]
    simp only [List.forall_mem_cons, List.not_mem_nil, false_imp_iff, implies_true,
      and_true] at shown words ⊢
    obtain ⟨a, owner, odd, b, y, z, run⟩ := shown
    obtain ⟨x, m, arrayWord, methodWord⟩ := words
    refine ⟨?_, ?_, ?_, ?_⟩
    · exact .class a (by decide +kernel) (by decide +kernel) b
    · exact .field odd x (by decide +kernel) arrayWord array z
    · exact .anyField a x (by decide +kernel) (by decide +kernel) y
    · exact .method owner m (by decide +kernel) (by decide +kernel) methodWord method run
  · have three : (parse file).toOption.map size = some 3 := by decide +kernel
    obtain ⟨t', read, size⟩ := Option.map_eq_some_iff.1 three
    have h := toOption_eq_some_iff.1 read
    exact ⟨t', h, size, (mapping_file_round_trip.2 file t' h).2.1⟩

end MappingTable

end Pseudonym
