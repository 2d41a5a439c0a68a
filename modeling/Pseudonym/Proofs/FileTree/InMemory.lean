import Pseudonym.Proofs.FileTree.Reliable

/-!
# The file system in memory does not fail

A path that is plain and fits (`Path.Fits`) is a list of steps down from the working directory, and
the tree is looked up along it (`toOption_find`):

    (t.find path).toOption = t.here.at? (parts path).

Operations that put something into a directory that is there change that one entry
(`entryAt_put`). From this, making directories is followed from the outermost one on, and a
`FileTree` is shown to be `Reliable` below every directory with a plain path.
-/

namespace Pseudonym

namespace Node

/-- What a node is, without what is in it. -/
def entry : Node → Entry
  | file content => .file content
  | directory _ => .directory

theorem at?_append (tree : Node) (front back : List String) :
    tree.at? (front ++ back) = (tree.at? front).bind (at? · back) := by
  induction front generalizing tree with
  | nil => cases tree <;> rfl
  | cons name front ih =>
    simp only [List.cons_append, at?]
    cases tree.entries.lookup name with
    | none => rfl
    | some inner => exact ih inner

theorem at?_nil (tree : Node) : tree.at? [] = some tree := by cases tree <;> rfl

theorem at?_singleton (tree : Node) (name : String) :
    tree.at? [name] = tree.entries.lookup name := by
  rw [at?]
  cases tree.entries.lookup name with
  | none => rfl
  | some inner => exact at?_nil inner

/-- **Only one entry changes** when a node is put into a directory that has none of its name. -/
theorem entry_put {tree node : Node} {front : List String} {name : String}
    {entries : List (String × Node)} (found : tree.at? front = some (directory entries))
    (new : entries.lookup name = none) (bare : node.entries = []) (names : List String) :
    ((tree.put (front ++ [name]) node).at? names).map entry =
      if names = front ++ [name] then some node.entry else (tree.at? names).map entry := by
  induction front generalizing tree names with
  | nil =>
    rw [at?_nil] at found
    obtain rfl := Option.some.inj found
    have placed : (directory entries).put [name] node =
        directory (insertEntry name node entries) := by
      simp [put]
    rw [List.nil_append, placed]
    cases names with
    | nil => simp [at?_nil, entry]
    | cons first rest =>
      simp only [at?, Node.entries]
      by_cases same : first = name
      · subst same
        rw [lookup_insertEntry, new]
        cases rest with
        | nil => simp [at?_nil]
        | cons next rest => simp [at?, bare]
      · rw [lookup_insertEntry_of_ne same, if_neg (by simp [same])]
  | cons step front ih =>
    cases tree with
    | file content => simp [at?, Node.entries] at found
    | directory outer =>
      rw [at?, Node.entries] at found
      obtain ⟨inner, under, deeper⟩ := Option.bind_eq_some_iff.1 found
      cases names with
      | nil => simp [at?_nil, put, entry]
      | cons first rest =>
        simp only [List.cons_append, put, at?, Node.entries, under, Option.getD_some]
        by_cases same : first = step
        · subst same
          rw [lookup_insertEntry, under]
          simpa using ih deeper rest
        · rw [lookup_insertEntry_of_ne same, if_neg (by simp [same])]

end Node

namespace Path

/-- Whether a path is short enough, and can be told to an operating system. -/
structure Fits (path : String) : Prop where
  noZero : path.toList.contains (Char.ofNat 0) = false
  short : isLong path = false
  shortParts : ∀ part ∈ parts path, isLongPart part = false

theorem Fits.of_append {around rest : String} (fits : Fits (around ++ "/" ++ rest)) :
    Fits around where
  noZero := by
    have noZero := fits.noZero
    simp only [List.contains_eq_mem, decide_eq_false_iff_not] at noZero ⊢
    exact fun zero => noZero (by simp [zero])
  short := by
    have short := fits.short
    simp only [isLong, decide_eq_false_iff_not, String.toList_append,
      Text.byteLength_append] at short ⊢
    omega
  shortParts part hp := fits.shortParts part (by simp [parts_append, hp])

end Path

namespace FileTree

open Pseudonym.Path

variable {t t' : FileTree} {path : String} {front : List String} {name : String}
  {entries : List (String × Node)}

/-- What stands at the end of some steps down. -/
def entryAt (t : FileTree) (names : List String) : Option Entry := (t.here.at? names).map Node.entry

/-- Whether steps down lead through no file. -/
def IsClear (t : FileTree) (names : List String) : Prop :=
  ∀ front content, front <+: names → t.entryAt front ≠ some (.file content)

theorem IsClear.of_prefix {names : List String} (clear : t.IsClear names) (h : front <+: names) :
    t.IsClear front := fun before content h' => clear before content (h'.trans h)

theorem IsClear.root {names : List String} (clear : t.IsClear names) : t.IsClear [] :=
  clear.of_prefix List.nil_prefix

theorem entryAt_eq_directory_iff {names : List String} :
    t.entryAt names = some .directory ↔ ∃ inner, t.here.at? names = some (.directory inner) := by
  rw [entryAt]
  cases t.here.at? names with
  | none => simp
  | some node => cases node <;> simp [Node.entry]

/-! ### Following a path -/

theorem enter_of_step (location : Location) {part : String} (step : isIdle part = false)
    (noParent : part ≠ "..") (short : isLongPart part = false) :
    t.enter ⟨location, entries⟩ part =
      match entries.lookup part with
      | none => .error .notFound
      | some (.file _) => .error .notADirectory
      | some (.directory entries) => .ok ⟨part :: location, entries⟩ := by
  have long : ¬Path.isLongPart part = true := by simp [short]
  have idle : ¬Path.isIdle part = true := by simp [step]
  exact (if_neg long).trans ((if_neg idle).trans (if_neg noParent))

/-- Steps down lead where the tree has them. Where they lead nowhere, there is a file on the way or
something is missing. -/
theorem foldlM_enter (location : Location)
    (steps : ∀ part ∈ front, isIdle part = false ∧ part ≠ "..")
    (short : ∀ part ∈ front, isLongPart part = false) :
    (∃ inner, (Node.directory entries).at? front = some (.directory inner) ∧
        front.foldlM t.enter ⟨location, entries⟩ = .ok ⟨front.reverse ++ location, inner⟩) ∨
      ∃ fault, front.foldlM t.enter ⟨location, entries⟩ = .error fault ∧
        (∀ inner, (Node.directory entries).at? front ≠ some (.directory inner)) ∧
        (fault = .notFound ∨
          ∃ before content, before <+: front ∧
            (Node.directory entries).at? before = some (.file content)) := by
  induction front generalizing location entries with
  | nil => exact Or.inl ⟨entries, Node.at?_nil _, rfl⟩
  | cons part front ih =>
    obtain ⟨⟨step, noParent⟩, steps⟩ := List.forall_mem_cons.1 steps
    obtain ⟨shortPart, short⟩ := List.forall_mem_cons.1 short
    have entered : t.enter ⟨location, entries⟩ part = _ :=
      enter_of_step location step noParent shortPart
    simp only [List.foldlM_cons, Node.at?, Node.entries, entered]
    cases found : entries.lookup part with
    | none => exact Or.inr ⟨.notFound, rfl, by simp, Or.inl rfl⟩
    | some inner =>
      cases inner with
      | file content =>
        refine Or.inr ⟨.notADirectory, rfl, ?_, Or.inr ⟨[part], content, by simp, ?_⟩⟩
        · cases front with
          | nil => simp [Node.at?_nil]
          | cons next front => simp [Node.at?, Node.entries]
        · simp [Node.at?, Node.entries, found]
      | directory inside =>
        rcases ih (part :: location) steps short with
          ⟨inner, below, run⟩ | ⟨fault, run, nowhere, why⟩
        · exact Or.inl ⟨inner, below, by rw [List.reverse_cons, List.append_assoc]; exact run⟩
        · refine Or.inr ⟨fault, run, nowhere, why.imp_right ?_⟩
          rintro ⟨before, content, isBefore, file⟩
          exact ⟨part :: before, content, List.cons_prefix_cons.2 ⟨rfl, isBefore⟩,
            by simpa [Node.at?, Node.entries, found] using file⟩

/-- What a plain path is about: a name in a directory that the steps before it lead to. If they lead
nowhere, there is a file on the way or something is missing. -/
theorem locate_of_isPlain (plain : IsPlain path) (fits : Fits path)
    (hp : parts path = front ++ [name]) (clear : t.IsClear []) :
    (∃ inner, t.here.at? front = some (.directory inner) ∧
        t.locate path = .ok ⟨⟨front.reverse, inner⟩, name, false⟩) ∨
      ∃ fault, t.locate path = .error fault ∧
        (∀ inner, t.here.at? front ≠ some (.directory inner)) ∧
        (t.IsClear front → fault = .notFound) := by
  obtain ⟨entries, root⟩ : ∃ entries, t.here = .directory entries := by
    cases here : t.here with
    | file content =>
      exact absurd (by rw [entryAt, here, Node.at?_nil]; rfl) (clear [] content List.nil_prefix)
    | directory entries => exact ⟨entries, rfl⟩
  have steps : ∀ part ∈ front, isIdle part = false ∧ part ≠ ".." :=
    fun part hpart => plain part (by simp [hp, hpart])
  have short : ∀ part ∈ front, isLongPart part = false :=
    fun part hpart => fits.shortParts part (by simp [hp, hpart])
  have nonempty : path ≠ "" := by
    rintro rfl
    exact not_isPlain_empty plain
  have kept : (parts path).filter (· != "") = front ++ [name] := by
    rw [hp, List.filter_eq_self, ← hp]
    intro part hpart
    rw [bne_iff_ne]
    rintro rfl
    exact absurd (plain "" hpart).1 (by decide)
  have start : t.place [] = ⟨[], entries⟩ := by
    simp [place, root, Node.at?_nil, Node.entries]
  have located : t.locate path =
      (front.foldlM t.enter ⟨[], entries⟩ >>= fun place => .ok ⟨place, name, false⟩) := by
    rw [locate, fits.noZero, if_neg Bool.false_ne_true, fits.short, if_neg Bool.false_ne_true,
      if_neg nonempty, target, if_neg (head?_of_isPlain plain), start, kept,
      endsWithSlash_of_isPlain plain]
    simp only [List.dropLast_concat, List.getLast?_concat, Option.getD_some]
    rfl
  rw [located, root]
  rcases foldlM_enter [] steps short with ⟨inner, found, run⟩ | ⟨fault, run, nowhere, why⟩
  · exact Or.inl ⟨inner, found, by rw [run]; simp [bind, Except.bind]⟩
  · refine Or.inr ⟨fault, by rw [run]; rfl, nowhere, fun clear => why.resolve_right ?_⟩
    rintro ⟨before, content, isBefore, file⟩
    exact clear before content isBefore (by rw [entryAt, root, file]; rfl)

section

variable (plain : IsPlain path) (hp : parts path = front ++ [name])
include plain hp

theorem isGiven_of_isPlain (place : Place) : (Target.mk place name false).isGiven = false := by
  obtain ⟨step, noParent⟩ := plain name (by simp [hp])
  simp [Target.isGiven, step, noParent]

variable (fits : Fits path) (clear : t.IsClear [])
include fits clear

/-- The tree is looked up along the parts of a path. -/
theorem toOption_find : (t.find path).toOption = t.here.at? (parts path) := by
  have short := fits.shortParts name (by simp [hp])
  rw [hp, Node.at?_append, find]
  rcases locate_of_isPlain plain fits hp clear with
    ⟨inner, found, located⟩ | ⟨fault, located, nowhere, _⟩
  · rw [located, found, Option.bind_some, Node.at?_singleton, Node.entries]
    simp only [bind, Except.bind, isGiven_of_isPlain plain hp, Bool.or_false, short,
      Bool.false_eq_true, if_false]
    cases inner.lookup name with
    | none => rfl
    | some node => rfl
  · rw [located]
    cases found : t.here.at? front with
    | none => rfl
    | some node =>
      cases node with
      | file content => simp [Node.at?_singleton, Node.entries]; rfl
      | directory inner => exact absurd found (nowhere inner)

theorem isThere_eq : t.isThere path = (t.entryAt (parts path)).isSome := by
  rw [isThere, toOption_find plain hp fits clear, entryAt, Option.isSome_map]

theorem isDirectory_of_entryAt (found : t.entryAt (parts path) = some .directory) :
    t.isDirectory path = true := by
  rw [isDirectory, toOption_find plain hp fits clear]
  obtain ⟨inner, there⟩ := entryAt_eq_directory_iff.1 found
  rw [there]
  rfl

end

/-! ### Putting something in a directory -/

/-- What an operation leaves that puts a bare node under a new name. -/
theorem entryAt_put {inner : List (String × Node)} {node : Node}
    (hp : parts path = front ++ [name]) (found : t.here.at? front = some (.directory inner))
    (new : inner.lookup name = none) (bare : node.entries = []) :
    (t.put ⟨⟨front.reverse, inner⟩, name, false⟩ node).entryAt =
      Function.update t.entryAt (parts path) (some node.entry) := by
  funext names
  rw [entryAt, put, List.reverse_cons, List.reverse_reverse, Node.entry_put found new bare,
    Function.update_apply, hp]
  rfl

section

variable (plain : IsPlain path) (hp : parts path = front ++ [name]) (fits : Fits path)
  (clear : t.IsClear [])
include plain hp fits clear

theorem locate_of_open (opened : t.entryAt front = some .directory) :
    ∃ inner, t.here.at? front = some (.directory inner) ∧
      t.locate path = .ok ⟨⟨front.reverse, inner⟩, name, false⟩ ∧
      t.entryAt (parts path) = (inner.lookup name).map Node.entry := by
  obtain ⟨inner, found⟩ := entryAt_eq_directory_iff.1 opened
  refine ⟨inner, found, ?_, ?_⟩
  · rcases locate_of_isPlain plain fits hp clear with ⟨inner', found', located⟩ | ⟨_, _, nowhere, _⟩
    · rw [found] at found'
      obtain ⟨⟩ := found'
      exact located
    · exact absurd found (nowhere inner)
  · rw [hp, entryAt, Node.at?_append, found, Option.bind_some, Node.at?_singleton, Node.entries]

/-- A directory is made in a directory, unless it is there. -/
theorem makeDirectory_of_open (opened : t.entryAt front = some .directory)
    (noFile : ∀ content, t.entryAt (parts path) ≠ some (.file content)) :
    (∃ t', t.makeDirectory path = .ok t' ∧
        t'.entryAt = Function.update t.entryAt (parts path) (some .directory)) ∨
      t.makeDirectory path = .error .alreadyExists ∧ t.entryAt (parts path) = some .directory := by
  obtain ⟨inner, found, located, there⟩ := locate_of_open plain hp fits clear opened
  rw [makeDirectory, located]
  simp only [bind, Except.bind, isGiven_of_isPlain plain hp, fits.shortParts name (by simp [hp]),
    Bool.false_eq_true, if_false]
  cases under : inner.lookup name with
  | none => exact Or.inl ⟨_, rfl, entryAt_put hp found under rfl⟩
  | some node =>
    rw [there, under] at noFile ⊢
    cases node with
    | file content => exact absurd rfl (noFile content)
    | directory entries => exact Or.inr ⟨rfl, rfl⟩

/-- A directory cannot be made where the directory around it is missing. -/
theorem makeDirectory_of_missing (clearFront : t.IsClear front)
    (missing : t.entryAt front ≠ some .directory) : t.makeDirectory path = .error .notFound := by
  rcases locate_of_isPlain plain fits hp clear with ⟨inner, found, _⟩ | ⟨fault, located, _, why⟩
  · exact absurd (entryAt_eq_directory_iff.2 ⟨inner, found⟩) missing
  · rw [makeDirectory, located, why clearFront]
    rfl

/-- A new file is written in a directory. -/
theorem write_of_open (opened : t.entryAt front = some .directory)
    (new : t.entryAt (parts path) = none) (content : ByteArray) :
    ∃ t', t.write path content = .ok t' ∧
      t'.entryAt = Function.update t.entryAt (parts path) (some (.file content)) := by
  obtain ⟨inner, found, located, there⟩ := locate_of_open plain hp fits clear opened
  have under : inner.lookup name = none := Option.map_eq_none_iff.1 (there.symm.trans new)
  refine ⟨t.put ⟨⟨front.reverse, inner⟩, name, false⟩ (.file content), ?_,
    entryAt_put hp found under rfl⟩
  rw [write, located]
  simp only [bind, Except.bind, isGiven_of_isPlain plain hp, fits.shortParts name (by simp [hp]),
    under, Bool.or_false, Bool.false_eq_true, if_false]
  rfl

end

/-! ### Making directories -/

/-- What making directories changes: there are directories where steps down lead. -/
structure Widened (t t' : FileTree) (names : List String) : Prop where
  made : t'.entryAt names = some .directory
  kept (other : List String) : t'.entryAt other = t.entryAt other ∨
    other <+: names ∧ t'.entryAt other = some .directory

theorem IsClear.of_widened {names made : List String} (clear : t.IsClear names)
    (h : Widened t t' made) : t'.IsClear names := by
  intro front content isFront file
  rcases h.kept front with same | ⟨_, directory⟩
  · exact clear front content isFront (same ▸ file)
  · rw [directory] at file
    cases file

theorem Widened.trans {t'' : FileTree} {names : List String} (h : Widened t t' front)
    (before : front <+: names) (h' : Widened t' t'' names) : Widened t t'' names where
  made := h'.made
  kept other := by
    rcases h'.kept other with same | made
    · rcases h.kept other with same' | ⟨isBefore, made⟩
      · exact Or.inl (same.trans same')
      · exact Or.inr ⟨isBefore.trans before, same.trans made⟩
    · exact Or.inr made

theorem Widened.refl {names : List String} (made : t.entryAt names = some .directory) :
    Widened t t names := ⟨made, fun _ => Or.inl rfl⟩

theorem Widened.of_update {names : List String}
    (h : t'.entryAt = Function.update t.entryAt names (some .directory)) : Widened t t' names where
  made := by rw [h, Function.update_self]
  kept other := by
    by_cases same : other = names
    · subst same
      exact Or.inr ⟨List.prefix_rfl, by rw [h, Function.update_self]⟩
    · exact Or.inl (by rw [h, Function.update_of_ne same])

section

variable (plain : IsPlain path) (hp : parts path = front ++ [name]) (fits : Fits path)
  (clear : t.IsClear (parts path))
include plain hp fits clear

/-- Making the last of some directories, where it counts that it is there. -/
theorem attempt_makeDirectory_of_open (opened : t.entryAt front = some .directory) :
    ∃ outcome t', system.makeDirectory path t = (outcome, t') ∧ Widened t t' (parts path) ∧
      (outcome = .ok () ∨ outcome = .error .alreadyExists ∧
        system.orThere path .alreadyExists t' = (.ok (), t')) := by
  have noFile := fun content => clear (parts path) content List.prefix_rfl
  rcases makeDirectory_of_open plain hp fits clear.root opened noFile with
    ⟨t', made, changed⟩ | ⟨refused, there⟩
  · exact ⟨.ok (), t', by simp [system, attempt, made], .of_update changed, Or.inl rfl⟩
  · refine ⟨.error .alreadyExists, t, by simp [system, attempt, refused], .refl there,
      Or.inr ⟨rfl, ?_⟩⟩
    have isDirectory := isDirectory_of_entryAt plain hp fits clear.root there
    simp only [FileSystem.orThere, system, isDirectory, bind, StateT.bind]
    rfl

/-- The directory around a path is there: one more is made in it. -/
theorem makeFirst_of_open (opened : t.entryAt front = some .directory) (around : List String) :
    ∃ t', system.makeFirst (path :: around) t = (.ok (), t') ∧ Widened t t' (parts path) := by
  obtain ⟨outcome, t', made, widened, ends⟩ :=
    attempt_makeDirectory_of_open plain hp fits clear opened
  refine ⟨t', ?_, widened⟩
  rcases ends with rfl | ⟨rfl, there⟩
  · simp only [FileSystem.makeFirst, bind, StateT.bind, made]
    rfl
  · simp [FileSystem.makeFirst, bind, StateT.bind, made, there]

/-- The directory around a path is missing: it is made first. -/
theorem makeFirst_of_missing {around : List String} (missing : t.entryAt front ≠ some .directory)
    (makes : ∃ t', system.makeFirst around t = (.ok (), t') ∧ Widened t t' front) :
    ∃ t', system.makeFirst (path :: around) t = (.ok (), t') ∧ Widened t t' (parts path) := by
  have before : front <+: parts path := hp ▸ List.prefix_append front [name]
  have refused : system.makeDirectory path t = (.error .notFound, t) := by
    have missed :=
      makeDirectory_of_missing plain hp fits clear.root (clear.of_prefix before) missing
    simp [system, attempt, missed]
  obtain ⟨t₁, makesAround, widened⟩ := makes
  obtain ⟨outcome, t', made, widened', ends⟩ :=
    attempt_makeDirectory_of_open plain hp fits (clear.of_widened widened) widened.made
  refine ⟨t', ?_, widened.trans before widened'⟩
  rcases ends with rfl | ⟨rfl, there⟩
  · simp only [FileSystem.makeFirst, bind, StateT.bind, refused, makesAround, made]
    rfl
  · simp [FileSystem.makeFirst, bind, StateT.bind, refused, makesAround, made, there]

end

/-- **Directories are made** where no file is in the way, from the outermost one on. -/
theorem makeDirectories_of_isPlain (plain : IsPlain path) (fits : Fits path)
    (clear : t.IsClear (parts path)) :
    ∃ t', system.makeDirectories path t = (.ok (), t') ∧ Widened t t' (parts path) := by
  refine IsPlain.induction (motive := fun path => ∀ t : FileTree, Fits path →
    t.IsClear (parts path) →
      ∃ t', system.makeDirectories path t = (.ok (), t') ∧ Widened t t' (parts path))
    ?single ?deeper plain t fits clear
  case single =>
    intro part fresh plain t fits clear
    have hp : parts part = [] ++ [part] := parts_of_notMem fresh
    have opened : t.entryAt [] = some .directory := by
      cases here : t.here with
      | file content =>
        exact absurd (by simp [entryAt, here, Node.at?_nil, Node.entry])
          (clear [] content List.nil_prefix)
      | directory entries => simp [entryAt, here, Node.at?_nil, Node.entry]
    rw [FileSystem.makeDirectories, ancestors_single fresh plain]
    exact makeFirst_of_open plain hp fits clear opened []
  case deeper =>
    intro around last fresh plain ih t fits clear
    have hp : parts (around ++ "/" ++ last) = parts around ++ [last] := by
      rw [parts_append, parts_of_notMem fresh]
    rw [FileSystem.makeDirectories, ancestors_append fresh plain]
    by_cases opened : t.entryAt (parts around) = some .directory
    · exact makeFirst_of_open plain hp fits clear opened _
    · exact makeFirst_of_missing plain hp fits clear opened
        (ih t fits.of_append (clear.of_prefix (hp ▸ List.prefix_append _ _)))

/-! ### Below a directory -/

section

variable {directory parent : String} (plainDirectory : IsPlain directory) (plain : IsPlain name)
include plainDirectory plain

theorem isPlain_join : IsPlain (join directory name) := by
  rw [join_of_isPlain plainDirectory plain]
  exact isPlain_append.2 ⟨plainDirectory, plain⟩

theorem parts_join : parts (join directory name) = parts directory ++ parts name := by
  rw [join_of_isPlain plainDirectory plain, parts_append]

theorem exists_parts_join_eq (inside : parent? (join directory name) = some parent) :
    ∃ last, join directory name = parent ++ "/" ++ last ∧
      parts (join directory name) = parts parent ++ [last] := by
  have slash : '/' ∈ (join directory name).toList := by
    simp [join_of_isPlain plainDirectory plain]
  obtain ⟨last, written, fresh⟩ :=
    exists_of_parent? (isPlain_join plainDirectory plain) slash inside
  exact ⟨last, written, by rw [written, parts_append, parts_of_notMem fresh]⟩

end

/-- Steps on the way to the directory of a path below a directory lead to the path. -/
theorem exists_leadsTo {directory parent last : String} {steps : List String}
    (whole : parts directory ++ parts name = parts parent ++ [last])
    (h : parts directory ++ steps <+: parts parent) (nonempty : steps ≠ []) :
    ∃ path, parts path = steps ∧ LeadsTo path name := by
  obtain ⟨behind, h⟩ := h
  rw [← h, List.append_assoc, List.append_assoc, List.append_cancel_left_eq] at whole
  obtain ⟨around, rest, written, same, _⟩ := exists_of_parts_eq_append nonempty (by simp) whole
  exact ⟨around, same, rest, written⟩

/-- No file is in the way of a path below a directory. -/
theorem isClear_of_free {directory parent last : String}
    (whole : parts directory ++ parts name = parts parent ++ [last])
    (sound : t.IsClear (parts directory))
    (free : ∀ around content, LeadsTo around name →
      t.entryAt (parts directory ++ parts around) ≠ some (.file content)) :
    t.IsClear (parts parent) := by
  intro front content isFront file
  have inWhole : front <+: parts directory ++ parts name :=
    whole ▸ isFront.trans (List.prefix_append _ _)
  rcases List.prefix_or_prefix_of_prefix inWhole (List.prefix_append _ _) with
    early | ⟨steps, rfl⟩
  · exact sound front content early file
  · by_cases none : steps = []
    · subst none
      exact sound _ content (by simp) file
    · obtain ⟨around, rfl, leads⟩ := exists_leadsTo whole isFront none
      exact free around content leads file

/-- **A tree in memory is a file system that does not fail**, below every directory with a plain
path and for all names that are not too long for it. -/
def reliable {directory : String} (plainDirectory : IsPlain directory) :
    FileSystem.Reliable system directory fun name => Fits (join directory name) where
  find? t name := t.entryAt (parts directory ++ parts name)
  IsSound t := t.IsClear (parts directory)
  IsOpen t name := t.entryAt (parts directory ++ parts name).dropLast = some .directory
  isThere_eq {t name} sound plain fit := by
    have whole := List.dropLast_concat_getLast (parts_ne_nil (join directory name))
    have answered := isThere_eq (isPlain_join plainDirectory plain) whole.symm fit sound.root
    rw [← parts_join plainDirectory plain, ← answered]
    rfl
  exists_makeDirectories {t name parent} sound plain fit inside free := by
    obtain ⟨last, written, whole⟩ := exists_parts_join_eq plainDirectory plain inside
    have plainParent : IsPlain parent :=
      (isPlain_append.1 (written ▸ isPlain_join plainDirectory plain)).1
    rw [parts_join plainDirectory plain] at whole
    obtain ⟨t', made, widened⟩ := makeDirectories_of_isPlain plainParent (written ▸ fit).of_append
      (isClear_of_free whole sound free)
    refine ⟨t', made, sound.of_widened widened, ?_, fun other => ?_⟩
    · rw [whole, List.dropLast_concat]
      exact widened.made
    · refine (widened.kept _).imp_right fun ⟨before, made⟩ => ⟨?_, made⟩
      obtain ⟨path, same, leads⟩ := exists_leadsTo whole before (parts_ne_nil other)
      exact parts_injective same ▸ leads
  exists_write {t name} sound plain fit opened new content := by
    have whole := List.dropLast_concat_getLast (parts_ne_nil (join directory name))
    have opened : t.entryAt (parts (join directory name)).dropLast = some .directory :=
      parts_join plainDirectory plain ▸ opened
    obtain ⟨t', written, changed⟩ := write_of_open (isPlain_join plainDirectory plain) whole.symm
      fit sound.root opened (parts_join plainDirectory plain ▸ new) content
    rw [parts_join plainDirectory plain] at changed
    refine ⟨t', by simp [system, attempt, written], ?_, funext fun other => ?_⟩
    · intro front content' h
      have elsewhere : front ≠ parts directory ++ parts name := by
        rintro rfl
        have short := h.length_le
        have := List.length_pos_iff.2 (parts_ne_nil name)
        rw [List.length_append] at short
        omega
      rw [changed, Function.update_of_ne elsewhere]
      exact sound front content' h
    · rw [changed, Function.update_apply, Function.update_apply]
      simp only [List.append_cancel_left_eq, parts_injective.eq_iff]

end FileTree

end Pseudonym
