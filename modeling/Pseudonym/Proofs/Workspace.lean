import Mathlib.Data.List.Dedup
import Mathlib.Data.List.Induction
import Pseudonym.Additions
import Pseudonym.Proofs.Outcome
import Pseudonym.Proofs.Text.Order

/-!
# Workspaces

A workspace keeps its classes under their names, the primary ones and the libraries apart. One
addition changes one entry (`primary_after`, `library_after`), so after a run of additions each side
holds, under each name, the last class of this name that came to it,

    (build additions).primary[name]? = lastNamed (primaries additions) name,

and everything that a workspace is asked follows from this. A keyed workspace lists every primary
class once, and the class that is listed is the one that is found by its name.
-/

namespace Pseudonym

open Std (ExtTreeMap LawfulEqOrd)
open Text

namespace Workspace

variable {w : Workspace} {info : ClassInfo} {name : String}

/-! ### Looking classes up -/

theorem find?_eq_or (w : Workspace) (name : String) :
    w.find? name = w.primary[name]?.or w.library[name]? := by
  rw [find?]
  cases w.primary[name]? with
  | some info => rfl
  | none => rfl

theorem find?_addPrimary (w : Workspace) (info : ClassInfo) (name : String) :
    (w.addPrimary info).find? name = if info.name = name then some info else w.find? name := by
  simp only [find?, addPrimary, ExtTreeMap.getElem?_insert, LawfulEqOrd.compare_eq_iff_eq]
  by_cases same : info.name = name
  · simp only [if_pos same]
  · simp only [if_neg same]

theorem find?_addPrimaries_of_notMem {infos : List ClassInfo} {name : String}
    (h : name ∉ infos.map ClassInfo.name) (w : Workspace) :
    (infos.foldl addPrimary w).find? name = w.find? name := by
  induction infos generalizing w with
  | nil => rfl
  | cons info infos ih =>
    rw [List.map_cons, List.mem_cons, not_or] at h
    rw [List.foldl_cons, ih h.2, find?_addPrimary, if_neg (Ne.symm h.1)]

/-- Classes of different names are all found. -/
theorem find?_addPrimaries {infos : List ClassInfo} {info : ClassInfo}
    (distinct : (infos.map ClassInfo.name).Nodup) (hi : info ∈ infos) (w : Workspace) :
    (infos.foldl addPrimary w).find? info.name = some info := by
  induction infos generalizing w with
  | nil => cases hi
  | cons first infos ih =>
    rw [List.map_cons, List.nodup_cons] at distinct
    rw [List.foldl_cons]
    rcases List.mem_cons.1 hi with rfl | hi
    · rw [find?_addPrimaries_of_notMem distinct.1, find?_addPrimary, if_pos rfl]
    · exact ih distinct.2 hi _

theorem isPrimary_eq_isSome (w : Workspace) (name : String) :
    w.isPrimary name = w.primary[name]?.isSome := ExtTreeMap.contains_eq_isSome_getElem?

theorem isPrimary_symbols (found : w.primary[info.name]? = some info) :
    w.symbols.isPrimary info.name = true := by
  show w.isPrimary info.name = true
  rw [isPrimary_eq_isSome, found]
  rfl

theorem find?_symbols (found : w.primary[info.name]? = some info) :
    w.symbols.find? info.name = some info := by
  show w.find? info.name = some info
  rw [find?, found]

/-! ### The list of all names -/

/-- No class is listed twice: a library that a primary class hides is left out. -/
theorem nodup_names (w : Workspace) : w.names.Nodup := by
  refine List.nodup_append.2 ⟨ExtTreeMap.nodup_keys, ExtTreeMap.nodup_keys.filter _, ?_⟩
  intro name listed other kept same
  have primary : w.isPrimary name = true :=
    ExtTreeMap.mem_iff_contains.1 (ExtTreeMap.mem_keys.1 listed)
  have foreign := (List.mem_filter.1 kept).2
  rw [← same, primary] at foreign
  exact absurd foreign (by decide)

theorem mem_primaryNames : name ∈ w.primaryNames ↔ w.isPrimary name = true :=
  ExtTreeMap.mem_keys.trans ExtTreeMap.mem_iff_contains

theorem mem_names_of_isPrimary (h : w.isPrimary name = true) : name ∈ w.names :=
  List.mem_append_left _ (mem_primaryNames.2 h)

/-- The names behind those of the primary classes. -/
def libraryNames (w : Workspace) : List String := w.library.keys.filter (!w.isPrimary ·)

theorem names_eq (w : Workspace) : w.names = w.primaryNames ++ w.libraryNames := rfl

/-- A library is listed unless a primary class hides it. -/
theorem mem_libraryNames : name ∈ w.libraryNames ↔
    w.isPrimary name = false ∧ (w.find? name).isSome = true := by
  rw [libraryNames, List.mem_filter, Bool.not_eq_true', and_comm, ExtTreeMap.mem_keys,
    ExtTreeMap.mem_iff_isSome_getElem?, isPrimary_eq_isSome, find?_eq_or]
  cases w.primary[name]? with
  | some info => simp
  | none => simp

/-- What is listed is what is found. -/
theorem mem_names : name ∈ w.names ↔ (w.find? name).isSome = true := by
  rw [names_eq, List.mem_append, mem_primaryNames, mem_libraryNames, isPrimary_eq_isSome,
    find?_eq_or]
  cases w.primary[name]? with
  | some info => simp
  | none => simp

theorem pairwise_before_primaryNames (w : Workspace) : w.primaryNames.Pairwise Before :=
  ExtTreeMap.ordered_keys.imp compare_eq_lt_iff_before.1

theorem pairwise_before_libraryNames (w : Workspace) : w.libraryNames.Pairwise Before :=
  (ExtTreeMap.ordered_keys.imp compare_eq_lt_iff_before.1).filter _

/-! ### Keyed workspaces -/

/-- Whether every primary class is kept under its own name. -/
def IsKeyed (w : Workspace) : Prop :=
  ∀ (name : String) (info : ClassInfo), w.primary[name]? = some info → info.name = name

theorem isKeyed_empty : IsKeyed {} := fun _ _ found => by simp at found

theorem IsKeyed.addPrimary (keyed : w.IsKeyed) (info : ClassInfo) :
    (w.addPrimary info).IsKeyed := by
  intro name other found
  simp only [Workspace.addPrimary, ExtTreeMap.getElem?_insert,
    LawfulEqOrd.compare_eq_iff_eq] at found
  split at found
  · next same => rw [← Option.some.inj found, same]
  · exact keyed name other found

theorem IsKeyed.foldl_addPrimary (keyed : w.IsKeyed) (infos : List ClassInfo) :
    (infos.foldl Workspace.addPrimary w).IsKeyed := by
  induction infos generalizing w with
  | nil => exact keyed
  | cons info infos ih => exact ih (keyed.addPrimary info)

theorem primary_foldl_addLibrary (infos : List ClassInfo) (w : Workspace) :
    (infos.foldl addLibrary w).primary = w.primary := by
  induction infos generalizing w with
  | nil => rfl
  | cons info infos ih => exact ih _

theorem length_primaryClasses (w : Workspace) : w.primaryClasses.length = w.primary.size := by
  rw [primaryClasses, List.length_map, ExtTreeMap.length_toList]

/-- A class is listed exactly if it is found by its name. -/
theorem IsKeyed.mem_primaryClasses (keyed : w.IsKeyed) :
    info ∈ w.primaryClasses ↔ w.primary[info.name]? = some info := by
  simp only [primaryClasses, List.mem_map, Prod.exists, exists_eq_right,
    ExtTreeMap.mem_toList_iff_getElem?_eq_some]
  constructor
  · rintro ⟨name, found⟩
    rw [keyed name info found]
    exact found
  · exact fun found => ⟨info.name, found⟩

/-- No two listed classes have one name. -/
theorem IsKeyed.nodup_primaryClasses (keyed : w.IsKeyed) :
    (w.primaryClasses.map ClassInfo.name).Nodup := by
  have names : w.primaryClasses.map ClassInfo.name = w.primary.toList.map Prod.fst := by
    rw [primaryClasses, List.map_map]
    refine List.map_congr_left fun entry listed => ?_
    exact keyed entry.1 entry.2 (ExtTreeMap.mem_toList_iff_getElem?_eq_some.1 listed)
  rw [names, List.Nodup, List.pairwise_map]
  exact ExtTreeMap.distinct_keys_toList.imp fun different same =>
    different (LawfulEqOrd.compare_eq_iff_eq.2 same)

end Workspace

/-! ### What additions bring -/

namespace Addition

/-- The primary class that an addition brings, if it brings one. -/
def primary? : Addition → Option ClassInfo
  | primary info => some info
  | library _ => none
  | loaded codec bytes => (ClassInfo.read codec bytes).toOption

/-- The library that an addition brings, if it brings one. -/
def library? : Addition → Option ClassInfo
  | library info => some info
  | primary _ | loaded _ _ => none

end Addition

/-- The primary classes that additions bring, in order. -/
def primaries (additions : List Addition) : List ClassInfo := additions.filterMap Addition.primary?

/-- The libraries that additions bring, in order. -/
def libraries (additions : List Addition) : List ClassInfo := additions.filterMap Addition.library?

theorem primaries_concat (additions : List Addition) (addition : Addition) :
    primaries (additions ++ [addition]) = primaries additions ++ addition.primary?.toList := by
  rw [primaries, List.filterMap_append, List.filterMap_cons, List.filterMap_nil]
  cases addition.primary? <;> rfl

theorem libraries_concat (additions : List Addition) (addition : Addition) :
    libraries (additions ++ [addition]) = libraries additions ++ addition.library?.toList := by
  rw [libraries, List.filterMap_append, List.filterMap_cons, List.filterMap_nil]
  cases addition.library? <;> rfl

/-- The last class of a name. -/
def lastNamed (infos : List ClassInfo) (name : String) : Option ClassInfo :=
  (infos.filter (·.name == name)).getLast?

section

variable {infos : List ClassInfo} {info : ClassInfo} {name : String}

/-- One class more. -/
theorem lastNamed_concat (infos : List ClassInfo) (info : ClassInfo) (name : String) :
    lastNamed (infos ++ [info]) name =
      if info.name = name then some info else lastNamed infos name := by
  unfold lastNamed
  rw [List.filter_append]
  by_cases same : info.name = name
  · simp [same]
  · simp [same]

theorem name_of_lastNamed (h : lastNamed infos name = some info) : info.name = name :=
  beq_iff_eq.1 (List.mem_filter.1 (List.mem_of_getLast? h)).2

theorem isSome_lastNamed_iff :
    (lastNamed infos name).isSome = true ↔ ∃ info ∈ infos, info.name = name := by
  rw [lastNamed, List.getLast?_isSome, ne_eq, List.filter_eq_nil_iff]
  simp

end

namespace Workspace

/-! ### Runs of additions -/

section

variable (w : Workspace) (addition : Addition)

/-- What one addition does to the primary classes. -/
theorem primary_after : (w.after addition).primary =
    addition.primary?.elim w.primary fun info => w.primary.insert info.name info := by
  cases addition with
  | primary info => rfl
  | library info => rfl
  | loaded codec bytes =>
    rw [after, add, loadPrimary, Addition.primary?]
    cases ClassInfo.read codec bytes with
    | ok info => rfl
    | error e => rfl

/-- What one addition does to the libraries. -/
theorem library_after : (w.after addition).library =
    addition.library?.elim w.library fun info => w.library.insert info.name info := by
  cases addition with
  | primary info => rfl
  | library info => rfl
  | loaded codec bytes =>
    rw [after, add, loadPrimary, Addition.library?]
    cases ClassInfo.read codec bytes with
    | ok info => rfl
    | error e => rfl

end

/-- A store to which classes are added under their names holds the last class of each name. -/
theorem getElem?_insertLast {store : ExtTreeMap String ClassInfo} {infos : List ClassInfo}
    (holds : ∀ name, store[name]? = lastNamed infos name) (brought : Option ClassInfo)
    (name : String) :
    (brought.elim store fun info => store.insert info.name info)[name]? =
      lastNamed (infos ++ brought.toList) name := by
  cases brought with
  | none => simpa using holds name
  | some info =>
    rw [Option.toList_some, lastNamed_concat, ← holds]
    simp [ExtTreeMap.getElem?_insert]

theorem build_concat (additions : List Addition) (addition : Addition) :
    build (additions ++ [addition]) = (build additions).after addition := List.foldl_concat ..

/-- **Each side holds the last class of each name** that was added to it. -/
theorem holds_build (additions : List Addition) :
    (∀ name, (build additions).primary[name]? = lastNamed (primaries additions) name) ∧
      ∀ name, (build additions).library[name]? = lastNamed (libraries additions) name := by
  induction additions using List.reverseRecOn with
  | nil => exact ⟨fun _ => ExtTreeMap.getElem?_empty, fun _ => ExtTreeMap.getElem?_empty⟩
  | append_singleton additions addition ih =>
    rw [build_concat, primary_after, library_after, primaries_concat, libraries_concat]
    exact ⟨getElem?_insertLast ih.1 _, getElem?_insertLast ih.2 _⟩

theorem find?_build (additions : List Addition) (name : String) :
    (build additions).find? name =
      (lastNamed (primaries additions) name).or (lastNamed (libraries additions) name) := by
  rw [find?_eq_or, (holds_build additions).1, (holds_build additions).2]

theorem isPrimary_build_iff {additions : List Addition} {name : String} :
    (build additions).isPrimary name = true ↔ ∃ info ∈ primaries additions, info.name = name := by
  rw [isPrimary_eq_isSome, (holds_build additions).1, isSome_lastNamed_iff]

theorem size_primary_build (additions : List Addition) :
    (build additions).primary.size =
      ((primaries additions).map ClassInfo.name).dedup.length := by
  rw [← ExtTreeMap.length_keys]
  refine List.Perm.length_eq ((List.perm_ext_iff_of_nodup ExtTreeMap.nodup_keys
    (List.nodup_dedup _)).2 fun name => ?_)
  rw [List.mem_dedup, List.mem_map]
  exact mem_primaryNames.trans isPrimary_build_iff

/-- **A workspace is what was added to it.**  A name leads to the last primary class that was added
under it, or else to the last library. A class is primary exactly if a primary class was added under
its name, and stays so. The names of all classes are listed once each, those of the primary classes
first, both parts in order, and the primary classes are counted by their names. -/
theorem follows_additions (additions : List Addition) :
    let w := build additions
    (∀ name, w.find? name =
      (lastNamed (primaries additions) name).or (lastNamed (libraries additions) name)) ∧
    (∀ name info, w.find? name = some info → info.name = name) ∧
    (∀ name, w.isPrimary name = true ↔ ∃ info ∈ primaries additions, info.name = name) ∧
    (∀ name, w.isPrimary name = true →
      ∀ more, (build (additions ++ more)).isPrimary name = true) ∧
    (∀ name, w.names.count name = if (w.find? name).isSome then 1 else 0) ∧
    (∃ front back, w.names = front ++ back ∧ front.Pairwise Before ∧ back.Pairwise Before ∧
      (∀ name, name ∈ front ↔ w.isPrimary name = true) ∧
      ∀ name, name ∈ back ↔ w.isPrimary name = false ∧ (w.find? name).isSome = true) ∧
    w.primary.size = ((primaries additions).map ClassInfo.name).dedup.length := by
  intro w
  refine ⟨find?_build additions, ?_, fun _ => isPrimary_build_iff, ?_, ?_, ?_,
    size_primary_build additions⟩
  · intro name info found
    rcases Option.or_eq_some_iff.1 ((find?_build additions name).symm.trans found) with
      primary | ⟨_, library⟩
    · exact name_of_lastNamed primary
    · exact name_of_lastNamed library
  · intro name primary more
    obtain ⟨info, added, named⟩ := isPrimary_build_iff.1 primary
    refine isPrimary_build_iff.2 ⟨info, ?_, named⟩
    rw [primaries, List.filterMap_append]
    exact List.mem_append_left _ added
  · intro name
    rw [List.Nodup.count w.nodup_names]
    simp only [mem_names]
  · exact ⟨w.primaryNames, w.libraryNames, w.names_eq, w.pairwise_before_primaryNames,
      w.pairwise_before_libraryNames, fun _ => mem_primaryNames, fun _ => mem_libraryNames⟩

/-- A library that is hidden by a primary class added later, and bytes that hold no class. -/
theorem follows_additions_hidden :
    let codec : ClassCodec :=
      { read := fun bytes => if bytes.isEmpty then .error .markersInstalled else .ok { name := "b/B" }
        write := fun _ => .error .markersInstalled }
    let library : ClassInfo := .ofClass { name := "a/A" } .empty
    let primary : ClassInfo := .ofClass { name := "a/A" } "1".toUTF8
    let other : ClassInfo := .ofClass { name := "a/B" } .empty
    let additions : List Addition := [.library library, .library other,
      .loaded codec "2".toUTF8, .loaded codec .empty, .primary primary]
    let w := build additions
    w.find? "a/A" = some primary ∧ w.find? "a/B" = some other ∧ w.isPrimary "a/B" = false ∧
      w.names = ["a/A", "b/B", "a/B"] ∧ w.names.count "a/A" = 1 ∧ w.primary.size = 2 ∧
      ∀ more, (build (additions ++ more)).isPrimary "b/B" = true := by
  intro codec library primary other additions w
  obtain ⟨found, _, isPrimary, stays, count, _, size⟩ := follows_additions additions
  refine ⟨(found "a/A").trans rfl, (found "a/B").trans rfl, ?_, by decide +kernel,
    (count "a/A").trans (by decide +kernel), size.trans (by decide +kernel),
    stays "b/B" (by decide +kernel)⟩
  rw [← Bool.not_eq_true]
  intro added
  obtain ⟨info, brought, named⟩ := (isPrimary "a/B").1 added
  have others : ∀ name ∈ (primaries additions).map ClassInfo.name, name ≠ "a/B" := by
    decide +kernel
  exact others _ (List.mem_map_of_mem brought) named

end Workspace

end Pseudonym
