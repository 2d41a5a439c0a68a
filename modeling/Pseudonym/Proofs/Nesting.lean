import Mathlib.Data.List.TakeWhile
import Pseudonym.Proofs.Linking
import Pseudonym.Proofs.Reading
import Pseudonym.Proofs.Signature.Name

/-!
# Entries for nested classes

A class names the classes nested in it twice: in an entry with the names of the nested and of the
outer class and the simple name between them, and in its signature with the simple name behind a
point. Suppose a renaming keeps the nesting,

    o$s  ↦  f(o)$r.

The signature then shows `r`. The entry shows what can be told from the two names of the nested
class alone (`simpleNameAfter`): `s` if the class keeps its name or its last path segment, and else
what follows the last `$` of the new name, less the digits there. So the entry fits its names, and
shows what the signature shows, exactly if `r` can be told in this way (`Recovers`).
-/

namespace Pseudonym

open Text Signature Descriptor

/-! ### Simple names -/

/-- Whether a class keeps its name, or what follows its packages. -/
def KeepsLastPath (old new : String) : Prop :=
  old = new ∨ ∃ packages packages' last, old.toList = packages ++ '/' :: last ∧
    new.toList = packages' ++ '/' :: last ∧ '/' ∉ last

/-- Whether `shown` can be told from the names of a nested class whose simple name was `simple`. -/
structure Recovers (old new simple shown : String) : Prop where
  /-- What keeps its last path segment keeps its simple name. -/
  kept (h : KeepsLastPath old new) : shown = simple
  /-- What moves has the simple name behind the last `$` and the digits there. -/
  moved (h : ¬ KeepsLastPath old new) :
    '$' ∉ shown.toList ∧ ∀ c ∈ shown.toList.head?, c.isDigit = false

section

variable {old new outer simple shown : String}

/-- What follows the packages in a name that has some. -/
private theorem lastPath_eq_some_iff {name : String} {last : List Char} :
    (cutLast? (· == '/') name.toList).map Prod.snd = some last ↔
      ∃ packages, name.toList = packages ++ '/' :: last ∧ '/' ∉ last := by
  rw [Option.map_eq_some_iff]
  constructor
  · rintro ⟨⟨packages, _⟩, cut, rfl⟩
    exact ⟨packages, cutLast?_eq_some_iff.1 cut⟩
  · rintro ⟨packages, cut⟩
    exact ⟨(packages, last), cutLast?_eq_some_iff.2 cut, rfl⟩

theorem keepsLastPath_iff : KeepsLastPath old new ↔ old = new ∨
    ((cutLast? (· == '/') old.toList).map Prod.snd).isSome = true ∧
      (cutLast? (· == '/') old.toList).map Prod.snd =
        (cutLast? (· == '/') new.toList).map Prod.snd := by
  refine or_congr_right ⟨?_, ?_⟩
  · rintro ⟨packages, packages', last, written, written', flat⟩
    rw [lastPath_eq_some_iff.2 ⟨packages, written, flat⟩,
      lastPath_eq_some_iff.2 ⟨packages', written', flat⟩]
    exact ⟨rfl, rfl⟩
  · rintro ⟨some, same⟩
    obtain ⟨last, found⟩ := Option.isSome_iff_exists.1 some
    obtain ⟨packages, written, flat⟩ := lastPath_eq_some_iff.1 found
    obtain ⟨packages', written', -⟩ := lastPath_eq_some_iff.1 (same ▸ found)
    exact ⟨packages, packages', last, written, written', flat⟩

instance : Decidable (KeepsLastPath old new) := decidable_of_iff _ keepsLastPath_iff.symm

instance : Decidable (Recovers old new simple shown) :=
  decidable_of_iff ((KeepsLastPath old new → shown = simple) ∧ (¬ KeepsLastPath old new →
      '$' ∉ shown.toList ∧ shown.toList.head?.all (!Char.isDigit ·) = true))
    ⟨fun h => ⟨h.1, by simpa [Option.all_eq_true] using h.2⟩,
      fun h => ⟨h.kept, by simpa [Option.all_eq_true] using h.moved⟩⟩

theorem simpleNameAfter_of_kept (h : KeepsLastPath old new) (simple : String) :
    simpleNameAfter old new simple = simple := by
  unfold simpleNameAfter
  rcases keepsLastPath_iff.1 h with same | ⟨some, same⟩
  · exact if_pos same
  · have keeps := Bool.and_eq_true_iff.2 ⟨some, beq_iff_eq.2 same⟩
    simp only [keeps, if_true, ite_self]

/-- The simple name of a nested class that moved is cut out of its new name. -/
theorem simpleNameAfter_of_moved (h : ¬ KeepsLastPath old (outer ++ "$" ++ shown))
    (simple : String) :
    simpleNameAfter old (outer ++ "$" ++ shown) simple =
      String.ofList ((behindLast (· == '$') shown.toList).dropWhile Char.isDigit) := by
  obtain ⟨other, segment⟩ := not_or.1 (keepsLastPath_iff.not.1 h)
  have spelled : (outer ++ "$" ++ shown).toList = outer.toList ++ '$' :: shown.toList := by simp
  have last : behindLast (· == '$') (outer ++ "$" ++ shown).toList =
      behindLast (· == '$') shown.toList := by
    rw [spelled, behindLast_append_cons (by decide)]
  unfold simpleNameAfter
  rw [if_neg other, if_neg (by simpa using segment), ← last, behindLast]
  rcases exists_last_stop (· == '$') (outer ++ "$" ++ shown).toList with
    fresh | ⟨front, c, rest, cut, stops, fresh⟩
  · exact absurd (fresh '$' (by simp [spelled])) (by decide)
  · obtain rfl : c = '$' := beq_iff_eq.1 stops
    rw [cut, cutLast?_append_cons (by rfl) front fresh]

/-- Nothing is cut off from a name without `$` and without digits in front. -/
theorem dropDigits_behindLast_eq_self_iff {name : List Char} :
    (behindLast (· == '$') name).dropWhile Char.isDigit = name ↔
      '$' ∉ name ∧ ∀ c ∈ name.head?, c.isDigit = false := by
  have digits : name.dropWhile Char.isDigit = name ↔ ∀ c ∈ name.head?, c.isDigit = false := by
    rw [List.dropWhile_eq_self_iff]
    cases name <;> simp
  constructor
  · intro same
    have fresh : ∀ c ∈ name, (c == '$') = false := by
      intro c hc
      rw [← same] at hc
      exact (behindLast_spec _ name).2 c ((List.dropWhile_suffix _).subset hc)
    rw [behindLast_of_forall fresh, digits] at same
    exact ⟨forall_beq_eq_false_iff.1 fresh, same⟩
  · rintro ⟨plain, letter⟩
    rw [behindLast_of_forall (forall_beq_eq_false_iff.2 plain)]
    exact digits.2 letter

/-- **The simple name follows a nested class that stays nested** exactly if it can be told. -/
theorem simpleNameAfter_eq_iff :
    simpleNameAfter old (outer ++ "$" ++ shown) simple = shown ↔
      Recovers old (outer ++ "$" ++ shown) simple shown := by
  by_cases kept : KeepsLastPath old (outer ++ "$" ++ shown)
  · rw [simpleNameAfter_of_kept kept]
    exact ⟨fun same => ⟨fun _ => same.symm, fun moved => absurd kept moved⟩,
      fun h => (h.kept kept).symm⟩
  · rw [simpleNameAfter_of_moved kept, ← String.toList_inj, String.toList_ofList,
      dropDigits_behindLast_eq_self_iff]
    exact ⟨fun h => ⟨fun keeps => absurd keeps kept, fun _ => h⟩, fun h => h.moved kept⟩

end

/-! ### Signatures -/

namespace Signature

/-- What a signature with one class nested in another one is read as. -/
theorem scan_nested {o s : String} (ho : IsName o) (hs : IsName s) :
    scan ("L" ++ o ++ "." ++ s ++ ";").toList =
      ⟨[.char 'L', .outer o, .char '.', .inner (o ++ "$" ++ s), .close], none⟩ := by
  have text : ("L" ++ o ++ "." ++ s ++ ";").toList =
      'L' :: (o.toList ++ '.' :: (s.toList ++ [';'])) := by simp
  have full {name : String} (h : IsName name) : name.toList ≠ [] := by simpa using h.1
  have opened (rest : List Char) : scan ('L' :: rest) =
      let scan := scanFrom 1 ⟨.supertypes, [], .segment none []⟩ rest
      ⟨.char 'L' :: scan.pieces, scan.fault⟩ := rfl
  have ends : endsName '.' = true ∧ endsName ';' = true := by decide
  obtain ⟨place, first⟩ :=
    scanFrom_name .supertypes [] none ends.1 (full ho) ho.2 1 (s.toList ++ [';'])
  obtain ⟨place', second⟩ :=
    scanFrom_name .supertypes [] (some o) ends.2 (full hs) hs.2 place []
  rw [nestedName, String.ofList_toList, behindName] at first
  rw [text, opened, first]
  dsimp only
  rw [second]
  simp [segmentPiece, nestedName, stopPiece, behindName, scanFrom, State.endType, State.faultAtEnd,
    State.enter]

end Signature

/-! ### Entries -/

/-- The entry for a class by its outer class and the simple name behind it. -/
def InnerClass.nested (o s : String) (access : UInt16) : InnerClass :=
  ⟨o ++ "$" ++ s, some o, some s, access⟩

/-- A descriptor ends with its type. -/
theorem TypeDescriptor.eq_empty_of_parse_append {d more : String} {t t' : TypeDescriptor}
    (h : parse d = .ok t) (h' : parse (d ++ more) = .ok t') : more = "" := by
  have read := scanType_toText (isClassName_of_parse h)
  rw [parse, located_eq_ok_iff, ofText, scanLast,
    String.toList_append, (toText_of_parse h).1, read] at h'
  by_contra full
  simp [bind, Except.bind, full] at h'

namespace Renamer

variable {r : Renamer}

theorem outcome_className (answers : ∀ name, ∃ found, r.mapping.className name = .ok found)
    (name : String) : (r.className name).outcome = .ok (r.mapping.classAfter name) := by
  obtain ⟨found, looked⟩ := answers name
  rw [className, outcome_replace, Mapping.classAfter, looked]
  cases found with
  | none => rfl
  | some new => rfl

/-- A signature writes what the new name of a nested class has behind the one of the outer class. -/
theorem outcome_nestedSignature
    (answers : ∀ name, ∃ found, r.mapping.className name = .ok found) {o s shown : String}
    (nested : r.mapping.classAfter (o ++ "$" ++ s) = r.mapping.classAfter o ++ "$" ++ shown)
    (ho : IsName o) (hs : IsName s) :
    (r.rename (.signature ("L" ++ o ++ "." ++ s ++ ";"))).outcome =
      .ok ("L" ++ r.mapping.classAfter o ++ "." ++ shown ++ ";") := by
  have agrees : Agrees r.className r.mapping.classAfter := fun name text asked =>
    Except.ok.inj ((outcome_className answers name).symm.trans asked)
  have pieces := scan_nested ho hs
  have asks := asks_rename agrees (congrArg Scan.fault pieces)
  refine (asks.outcome agrees).2
    ⟨fun name _ => outcome_className answers name, String.toList_injective ?_⟩
  have suffix : simpleName (r.mapping.classAfter o) (r.mapping.classAfter o ++ "$" ++ shown) =
      shown.toList := by
    simpa [nestedName] using simpleName_nested (r.mapping.classAfter o) shown.toList
  rw [pieces]
  simp [renamedPieces, nested, suffix]

/-- Only a descriptor is renamed as an array. -/
theorem exists_parse_of_array {name text : String} (array : name.toList.head? = some '[')
    (h : (r.rename (.type name)).outcome = .ok text) : ∃ t, TypeDescriptor.parse name = .ok t := by
  have asked : r.rename (.type name) = r.rename (.descriptor name) := if_pos array
  rw [asked, outcome_typeDescriptor (by simp [array])] at h
  exact h.imp fun t read => read.1

section

variable {o s : String} (access : UInt16)

theorem head?_nested : (o ++ "$" ++ s).toList.head? = some '[' ↔ o.toList.head? = some '[' := by
  cases written : o.toList with
  | nil => simp [written]
  | cons c rest => simp [written]

theorem renamed_nested (h : o.toList.head? ≠ some '[') :
    (InnerClass.nested o s access).renamed r.answer =
      ⟨r.mapping.classAfter (o ++ "$" ++ s), some (r.mapping.classAfter o),
        some (simpleNameAfter (o ++ "$" ++ s) (r.mapping.classAfter (o ++ "$" ++ s)) s),
          access⟩ := by
  rw [← answer_class, ← answer_class, ← answer_type h, ← answer_type (head?_nested.not.2 h)]
  rfl

/-- An entry is renamed unless its outer class would be an array. -/
theorem outcome_nested (answers : ∀ name, ∃ found, r.mapping.className name = .ok found)
    {entry' : InnerClass} :
    ((InnerClass.nested o s access).renameM r.rename).outcome = .ok entry' ↔
      o.toList.head? ≠ some '[' ∧
        entry' = ⟨r.mapping.classAfter (o ++ "$" ++ s), some (r.mapping.classAfter o),
          some (simpleNameAfter (o ++ "$" ++ s) (r.mapping.classAfter (o ++ "$" ++ s)) s),
            access⟩ := by
  have mentions : (InnerClass.nested o s access).mentions = [.type (o ++ "$" ++ s), .type o] := rfl
  rw [((InnerClass.nested o s access).asks r.agrees_answer).outcome r.agrees_answer, mentions,
    List.forall_mem_cons, List.forall_mem_singleton]
  constructor
  · rintro ⟨⟨nested, outer⟩, rfl⟩
    have plain : o.toList.head? ≠ some '[' := by
      intro array
      -- no descriptor goes on behind the one of the outer class
      obtain ⟨t, ht⟩ := exists_parse_of_array array outer
      obtain ⟨t', ht'⟩ := exists_parse_of_array (head?_nested.2 array) nested
      rw [String.append_assoc] at ht'
      have empty := congrArg String.toList (TypeDescriptor.eq_empty_of_parse_append ht ht')
      simp at empty
    exact ⟨plain, renamed_nested access plain⟩
  · rintro ⟨plain, rfl⟩
    have answered {name : String} (hn : name.toList.head? ≠ some '[') :
        (r.rename (.type name)).outcome = .ok (r.answer (.type name)) := by
      have asked : r.rename (.type name) = r.className name := if_neg hn
      rw [answer_type hn, answer_class, asked, outcome_className answers]
    exact ⟨⟨answered (head?_nested.not.2 plain), answered plain⟩,
      (renamed_nested access plain).symm⟩

end

end Renamer

open Renamer (outcome_nested outcome_nestedSignature of_remap)

/-- **When an entry fits its names.**  Let a renaming keep the nesting of a class. Its entry is
renamed unless the outer class would be an array, and the new simple name is the one between the
new names of the two classes, which the signature shows, exactly if it can be told from the names of
the nested class. -/
theorem nested_entry_agrees_iff (r : Renamer)
    (answers : ∀ name, ∃ found, r.mapping.className name = .ok found) {o s shown : String}
    (access : UInt16)
    (nested : r.mapping.classAfter (o ++ "$" ++ s) = r.mapping.classAfter o ++ "$" ++ shown) :
    ∃ name' outer' inner',
      (∀ entry', ((InnerClass.nested o s access).renameM r.rename).outcome = .ok entry' ↔
        o.toList.head? ≠ some '[' ∧ entry' = ⟨name', some outer', some inner', access⟩) ∧
      (∀ (C : ClassFile) (C' : Remapped) (k : Nat), r.remap C = .ok C' →
        C.innerClasses[k]? = some (InnerClass.nested o s access) →
          C'.result.innerClasses[k]? = some ⟨name', some outer', some inner', access⟩) ∧
      name' = r.mapping.classAfter (o ++ "$" ++ s) ∧ outer' = r.mapping.classAfter o ∧
      (name' = outer' ++ "$" ++ inner' ↔ inner' = shown) ∧
      (inner' = shown ↔ Recovers (o ++ "$" ++ s) name' s shown) ∧
      (IsName o → IsName s → (r.rename (.signature ("L" ++ o ++ "." ++ s ++ ";"))).outcome =
        .ok ("L" ++ outer' ++ "." ++ shown ++ ";")) := by
  refine ⟨_, _, _, fun entry' => outcome_nested access answers, ?_, rfl, rfl, ?_, ?_, ?_⟩
  · intro C C' k hC hk
    have asks := (InnerClass.nested o s access).asks r.agrees_answer
    have entry := (asks.outcome r.agrees_answer).2 ⟨fun q hq =>
      (of_remap hC).1 q (InnerClass.mem_mentions (List.mem_of_getElem? hk) hq), rfl⟩
    rw [(of_remap hC).2, ClassFile.renamed, List.getElem?_map, hk, Option.map_some,
      ((outcome_nested access answers).1 entry).2]
  · rw [nested, ← String.toList_inj]
    simp [String.toList_inj, eq_comm]
  · rw [nested]
    exact simpleNameAfter_eq_iff
  · exact outcome_nestedSignature answers nested

/-- A nested class and the class around it get other names and another package. -/
theorem nested_entry_agrees_renamed :
    let t : MappingTable := .ofEntries [.class "a/O" "b/P", .class "a/O$I" "b/P$X"]
    let r : Renamer := { mapping := t.mapping }
    ((InnerClass.nested "a/O" "I" 9).renameM r.rename).outcome =
        .ok ⟨"b/P" ++ "$" ++ "X", some "b/P", some "X", 9⟩ ∧
      (r.rename (.signature "La/O.I;")).outcome = .ok "Lb/P.X;" := by
  intro t r
  have outer : r.mapping.classAfter "a/O" = "b/P" := by decide +kernel
  have inner : r.mapping.classAfter ("a/O" ++ "$" ++ "I") = "b/P" ++ "$" ++ "X" := by
    decide +kernel
  obtain ⟨name', outer', inner', renamed, -, hn, ho, -, recovered, shows⟩ :=
    nested_entry_agrees_iff r (fun name => ⟨_, rfl⟩) (o := "a/O") (s := "I") 9
      (by rw [inner, outer])
  rw [inner] at hn
  rw [outer] at ho
  subst hn ho
  obtain rfl : inner' = "X" := recovered.2 (by decide +kernel)
  have names : IsName "a/O" ∧ IsName "I" := by decide +kernel
  exact ⟨(renamed _).2 ⟨by decide, rfl⟩, shows names.1 names.2⟩

/-- A simple name with `$` in it cannot be told once the class moved: the entry shows less than the
signature. -/
theorem dollar_entry_falls_apart :
    let t : MappingTable := .ofEntries [.class "a/O" "b/P", .class "a/O$I$J" "b/P$I$J"]
    let r : Renamer := { mapping := t.mapping }
    (∀ name, ∃ found, t.mapping.className name = .ok found) ∧
      t.mapping.classAfter "a/O$I$J" = t.mapping.classAfter "a/O" ++ "$" ++ "I$J" ∧
      ((InnerClass.nested "a/O" "I$J" 9).renameM r.rename).outcome =
        .ok ⟨"b/P$I$J", some "b/P", some "J", 9⟩ ∧
      "b/P$I$J" ≠ "b/P" ++ "$" ++ "J" ∧
      (r.rename (.signature "La/O.I$J;")).outcome = .ok "Lb/P.I$J;" := by
  intro t r
  refine ⟨fun name => ⟨_, rfl⟩, by decide +kernel, ?_, by decide, ?_⟩
  · exact toOption_eq_some_iff.1 (by decide +kernel)
  · exact toOption_eq_some_iff.1 (by decide +kernel)

end Pseudonym
