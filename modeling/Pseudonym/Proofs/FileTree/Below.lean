import Pseudonym.Proofs.FileTree.InMemory
import Pseudonym.Proofs.Outcome

/-!
# Paths below a directory

A path leads down (`Path.IsDownward`) if it does not start at the root and has no part that leads up;
unlike a plain path it may have idle parts. What a directory is joined with then stays below it. For
a path that does not start at the root this is the only way to stay there (`isBelow_join_iff`).

In a tree the parts of a path decide where it leads, if it leads anywhere (`Path.location`,
`FileTree.locate_eq_ok`), and below a directory is what goes on from its location:

    IsBelow directory path → location directory <:+ location path.

Files are seen through `FileTree.fileAt`. Making a directory changes none of them, and writing to a
path changes only the one at its location.
-/

namespace Pseudonym

namespace Path

open Text

variable {directory path rest : String}

/-- Whether a path neither starts at the root nor has a part that leads up. -/
def IsDownward (path : String) : Prop := path.toList.head? ≠ some '/' ∧ ".." ∉ parts path

instance : DecidablePred IsDownward := fun path =>
  inferInstanceAs (Decidable (path.toList.head? ≠ some '/' ∧ ".." ∉ parts path))

/-- Whether a path is a directory joined with a path that leads down. -/
def IsBelow (directory path : String) : Prop :=
  ∃ rest, IsDownward rest ∧ path = join directory rest

theorem IsPlain.isDownward (plain : IsPlain path) : IsDownward path :=
  ⟨head?_of_isPlain plain, fun up => (plain ".." up).2 rfl⟩

/-- **A path that leads up is below no directory that it is joined with.** -/
theorem isBelow_join_iff (relative : rest.toList.head? ≠ some '/') :
    IsBelow directory (join directory rest) ↔ IsDownward rest := by
  refine ⟨?_, fun down => ⟨rest, down, rfl⟩⟩
  rintro ⟨rest', down, same⟩
  rw [join_of_relative relative, join_of_relative down.1, String.append_right_inj] at same
  exact same ▸ down

end Path

/-! ### Locations -/

/-- Where a part of a path leads. -/
def Location.step (l : Location) (part : String) : Location :=
  if Path.isIdle part then l else if part = ".." then l.above else part :: l

namespace Path

variable {directory path rest : String}

/-- Where a path leads, if there is a way. -/
def location (path : String) : Location :=
  (parts path).foldl Location.step (if path.toList.head? = some '/' then ["/"] else [])

theorem location_append (nonempty : directory ≠ "") (rest : String) :
    location (directory ++ "/" ++ rest) = (parts rest).foldl Location.step (location directory) := by
  have head : (directory ++ "/" ++ rest).toList.head? = directory.toList.head? := by
    obtain ⟨c, text, written⟩ :=
      List.exists_cons_of_ne_nil (mt String.toList_eq_nil_iff.1 nonempty)
    simp [written]
  rw [location, parts_append, List.foldl_append, head]
  rfl

theorem location_root_append (rest : String) :
    location ("/" ++ rest) = (parts rest).foldl Location.step ["/"] := by
  have start : ("/" ++ rest).toList.head? = some '/' := by simp
  have written : "/" ++ rest = "" ++ "/" ++ rest := by simp
  rw [location, if_pos start, written, parts_append, List.foldl_append]
  rfl

theorem location_join (relative : rest.toList.head? ≠ some '/') (directory : String) :
    location (join directory rest) = (parts rest).foldl Location.step (location directory) := by
  rw [join_of_relative relative, front]
  by_cases empty : directory = ""
  · rw [if_pos empty, String.empty_append, location, if_neg relative, empty]
    rfl
  rw [if_neg empty]
  by_cases slash : endsWithSlash directory = true
  · rw [if_pos slash]
    obtain ⟨text, written⟩ : ∃ text, directory.toList = text ++ ['/'] :=
      List.getLast?_eq_some_iff.1 (beq_iff_eq.1 slash)
    by_cases root : text = []
    · have isRoot : directory = "/" := String.toList_injective (by simp [written, root])
      rw [isRoot, location_root_append]
      rfl
    · obtain rfl : directory = String.ofList text ++ "/" :=
        String.toList_injective (by simp [written])
      have around : String.ofList text ≠ "" := by simpa using root
      have own := location_append around ""
      rw [String.append_empty] at own
      rw [location_append around, own]
      rfl
  · rw [if_neg slash, location_append empty]

theorem suffix_foldl_step {parts : List String} (down : ".." ∉ parts) (l : Location) :
    l <:+ parts.foldl Location.step l := by
  induction parts generalizing l with
  | nil => exact List.suffix_rfl
  | cons part parts ih =>
    rw [List.mem_cons, not_or] at down
    refine List.IsSuffix.trans ?_ (ih down.2 _)
    rw [Location.step]
    split
    · exact List.suffix_rfl
    · rw [if_neg (Ne.symm down.1)]
      exact List.suffix_cons _ _

theorem IsBelow.suffix (below : IsBelow directory path) : location directory <:+ location path := by
  obtain ⟨rest, down, rfl⟩ := below
  rw [location_join down.1]
  exact suffix_foldl_step down.2 _

end Path

/-! ### Files -/

namespace Node

/-- The content of a file. -/
def content? : Node → Option ByteArray
  | file content => some content
  | directory _ => none

theorem at?_of_bare {node : Node} (bare : node.entries = []) (name : String) (names : List String) :
    node.at? (name :: names) = none := by
  rw [at?, bare]
  rfl

/-- **Only what names lead to is changed** when a bare node is put there, unless there is something
in what it replaces. -/
theorem content_at?_put {tree node : Node} {names names' : List String} (bare : node.entries = [])
    (replaced : ∀ old ∈ tree.at? names, old.entries = []) (other : names' ≠ names) :
    ((tree.put names node).at? names').bind content? = (tree.at? names').bind content? := by
  induction names generalizing tree names' with
  | nil =>
    obtain ⟨first, rest, rfl⟩ := List.exists_cons_of_ne_nil other
    have bareTree : tree.entries = [] := replaced tree (at?_nil tree)
    have placed : tree.put [] node = node := by cases tree <;> rfl
    rw [placed, at?_of_bare bare, at?_of_bare bareTree]
  | cons name names ih =>
    cases tree with
    | file content => rfl
    | directory entries =>
      cases names' with
      | nil => rfl
      | cons first rest =>
        simp only [put, at?, Node.entries]
        by_cases same : first = name
        · subst same
          have further : rest ≠ names := fun same => other (congrArg _ same)
          rw [lookup_insertEntry, Option.bind_some]
          cases found : entries.lookup first with
          | some inner =>
            refine ih (fun old hold => replaced old ?_) further
            rw [at?, Node.entries, found]
            exact hold
          | none =>
            -- Directories on the way that are new hold nothing else.
            have empty : ∀ old ∈ (directory []).at? names, old.entries = [] := by
              intro old hold
              cases names with
              | nil => exact Option.some.inj hold ▸ rfl
              | cons next names => cases hold
            rw [Option.getD_none, ih empty further]
            cases rest with
            | nil => rfl
            | cons next rest => rfl
        · rw [lookup_insertEntry_of_ne same]

/-- No file is where a directory was put. -/
theorem content_at?_put_directory (tree : Node) (names : List String)
    (entries : List (String × Node)) :
    ((tree.put names (directory entries)).at? names).bind content? = none := by
  induction names generalizing tree with
  | nil => cases tree <;> rfl
  | cons name names ih =>
    cases tree with
    | file content => rfl
    | directory outer =>
      simp only [put, at?, Node.entries, lookup_insertEntry]
      exact ih _

end Node

namespace FileTree

variable {t t' : FileTree} {p : Place} {target : Target} {path : String} {l : Location}

/-- The content of the file at a location. -/
def fileAt (t : FileTree) (l : Location) : Option ByteArray :=
  (t.here.at? l.reverse).bind Node.content?

theorem lookup_entries_place (name : String) :
    (t.place l).entries.lookup name = t.here.at? (name :: l).reverse := by
  rw [List.reverse_cons, Node.at?_append, place]
  cases t.here.at? l.reverse with
  | none => rfl
  | some node => exact (Node.at?_singleton node name).symm

theorem enter_place_eq_ok {part : String} (h : t.enter (t.place l) part = .ok p) :
    p = t.place (l.step part) := by
  rw [enter] at h
  rw [Location.step]
  split at h
  · cases h
  split at h
  · next idle => rw [if_pos idle, ← Except.ok.inj h]
  next noIdle =>
  rw [if_neg noIdle]
  split at h
  · next up => rw [if_pos up, ← Except.ok.inj h]; rfl
  next down =>
  rw [if_neg down]
  rw [lookup_entries_place] at h
  split at h
  · cases h
  · cases h
  · next entries found =>
    rw [← Except.ok.inj h]
    simp only [place, found, Option.map_some, Option.getD_some, Node.entries]

theorem foldlM_enter_eq_ok {parts : List String} (h : parts.foldlM t.enter (t.place l) = .ok p) :
    p = t.place (parts.foldl Location.step l) := by
  induction parts generalizing l with
  | nil => exact (Except.ok.inj h).symm
  | cons part parts ih =>
    rw [List.foldlM_cons] at h
    obtain ⟨next, entered, rest⟩ := bind_eq_ok_iff.1 h
    rw [enter_place_eq_ok entered] at rest
    exact ih rest

theorem foldl_step_filter (parts : List String) (l : Location) :
    (parts.filter (· != "")).foldl Location.step l = parts.foldl Location.step l := by
  induction parts generalizing l with
  | nil => rfl
  | cons part parts ih =>
    by_cases empty : part = ""
    · subst empty
      exact ih l
    · rw [List.filter_cons_of_pos (by simpa using empty), List.foldl_cons, List.foldl_cons, ih]

/-- **A path is about what stands at its location**, in a directory of the tree. -/
theorem locate_eq_ok (h : t.locate path = .ok target) (named : target.isGiven = false) :
    target.place = t.place target.place.location ∧
      target.name :: target.place.location = Path.location path := by
  rw [locate] at h
  split at h
  · cases h
  split at h
  · cases h
  split at h
  · cases h
  obtain ⟨place, entered, made⟩ := bind_eq_ok_iff.1 h
  obtain rfl := Except.ok.inj made
  rw [Target.isGiven, Bool.or_eq_false_iff, beq_eq_false_iff_ne] at named
  rcases List.eq_nil_or_concat' ((Path.parts path).filter (· != "")) with empty | ⟨front, name, split⟩
  · simp only [empty, List.getLast?_nil, Option.getD_none] at named
    exact absurd named.1 (by decide)
  simp only [split, List.getLast?_concat, Option.getD_some, List.dropLast_concat] at named entered ⊢
  have there := foldlM_enter_eq_ok entered
  refine ⟨there ▸ rfl, ?_⟩
  rw [Path.location, ← foldl_step_filter, split, List.foldl_append, List.foldl_cons, List.foldl_nil,
    Location.step, named.1, if_neg Bool.false_ne_true, if_neg named.2, there]
  rfl

/-- Nothing is in what a name leads to, unless it is a directory. -/
theorem fileAt_put {node : Node} (inTree : target.place = t.place target.place.location)
    (bare : node.entries = [])
    (replaced : ∀ old ∈ target.place.entries.lookup target.name, old.entries = [])
    (elsewhere : l ≠ target.name :: target.place.location) :
    (t.put target node).fileAt l = t.fileAt l := by
  rw [inTree, lookup_entries_place] at replaced
  exact Node.content_at?_put bare replaced (by simpa using elsewhere)

/-- A directory is made where there is nothing. -/
theorem exists_of_makeDirectory (h : t.makeDirectory path = .ok t') :
    ∃ target, t.locate path = .ok target ∧ target.isGiven = false ∧
      target.place.entries.lookup target.name = none ∧ t' = t.put target (.directory []) := by
  obtain ⟨target, located, h⟩ := bind_eq_ok_iff.1 h
  simp only [bind, Except.bind, throw, throwThe, MonadExceptOf.throw, pure, Except.pure] at h
  refine ⟨target, located, ?_⟩
  cases given : target.isGiven with
  | true => simp [given] at h
  | false =>
    cases long : Path.isLongPart target.name with
    | true => simp [given, long] at h
    | false =>
      cases there : target.place.entries.lookup target.name with
      | some node => simp [given, long, there] at h
      | none =>
        simp only [given, long, there, Bool.false_eq_true, if_false, Option.isSome_none,
          Except.ok.injEq] at h
        exact ⟨rfl, rfl, h.symm⟩

/-- A file is written where no directory is. -/
theorem exists_of_write {content : ByteArray} (h : t.write path content = .ok t') :
    ∃ target, t.locate path = .ok target ∧ target.isGiven = false ∧
      (target.place.entries.lookup target.name).any Node.isDirectory = false ∧
        t' = t.put target (.file content) := by
  obtain ⟨target, located, h⟩ := bind_eq_ok_iff.1 h
  simp only [bind, Except.bind, throw, throwThe, MonadExceptOf.throw, pure, Except.pure] at h
  refine ⟨target, located, ?_⟩
  cases given : target.isGiven || target.hasSlash with
  | true => simp [given] at h
  | false =>
    cases long : Path.isLongPart target.name with
    | true => simp [given, long] at h
    | false =>
      cases there : (target.place.entries.lookup target.name).any Node.isDirectory with
      | true => simp [given, long, there] at h
      | false =>
        simp only [given, long, there, Bool.false_eq_true, if_false, Except.ok.injEq] at h
        exact ⟨(Bool.or_eq_false_iff.1 given).1, rfl, h.symm⟩

/-- **Making a directory changes no file.** -/
theorem fileAt_makeDirectory (h : t.makeDirectory path = .ok t') : t'.fileAt = t.fileAt := by
  obtain ⟨target, located, named, new, rfl⟩ := exists_of_makeDirectory h
  have inTree := (locate_eq_ok located named).1
  funext l
  by_cases same : l = target.name :: target.place.location
  · rw [inTree, lookup_entries_place, ← same] at new
    rw [fileAt, fileAt, new, put, ← same]
    exact Node.content_at?_put_directory _ _ _
  · exact fileAt_put inTree rfl (by simp [new]) same

/-- **Writing to a path changes only the file at its location.** -/
theorem fileAt_write {content : ByteArray} (h : t.write path content = .ok t')
    (elsewhere : l ≠ Path.location path) : t'.fileAt l = t.fileAt l := by
  obtain ⟨target, located, named, noDirectory, rfl⟩ := exists_of_write h
  obtain ⟨inTree, leads⟩ := locate_eq_ok located named
  refine fileAt_put inTree rfl (fun old hold => ?_) (leads ▸ elsewhere)
  rw [Option.mem_def.1 hold, Option.any_some] at noDirectory
  cases old with
  | file content => rfl
  | directory entries => cases noDirectory

end FileTree

end Pseudonym
