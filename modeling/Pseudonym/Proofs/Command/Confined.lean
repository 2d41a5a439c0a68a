import Pseudonym.Proofs.Command.Keeping
import Pseudonym.Proofs.Command.Transform
import Pseudonym.Proofs.FileTree.Below
import Pseudonym.Proofs.Handoff.Table
import Pseudonym.Proofs.Markers

/-!
# Where a transformation writes

The file of a class is the output directory joined with the name of the class behind the filters. A
token leads down, whatever class it is for, so a transformation with tokens stays below its output
directory. A table gives names as they stand in the mapping file, and leaves other names as they
stand in the classes: the transformation stays below the output directory if these lead down
(`Surroundings.NamesLeadDown`), and can be led out of it if they do not.

To see where files are written, a file system is made to note it (`FileSystem.noting`).
-/

namespace Pseudonym

open Running

/-! ### Noting what is written -/

section

variable {σ α : Type}

/-- An operation that notes nothing. -/
def unnoted (operation : StateM σ α) : StateM (σ × List String) α := fun (files, noted) =>
  let (a, files') := operation files
  (a, (files', noted))

/-- A file system that notes the paths that are to be written to. -/
def FileSystem.noting (system : FileSystem (StateM σ)) : FileSystem (StateM (σ × List String)) where
  read path := unnoted (system.read path)
  isDirectory path := unnoted (system.isDirectory path)
  isThere path := unnoted (system.isThere path)
  files directory := unnoted (system.files directory)
  makeDirectory path := unnoted (system.makeDirectory path)
  write path content := fun (files, noted) =>
    unnoted (system.write path content) (files, noted ++ [path])

/-- Surroundings whose file system notes the paths that are to be written to. -/
def Surroundings.noting (s : Surroundings (StateM σ)) :
    Surroundings (StateM (σ × List String)) where
  files := s.files.noting
  input := unnoted s.input
  freshSeed := s.freshSeed

theorem FileSystem.keeps_noting (system : FileSystem (StateM σ)) (writable : String → Prop) :
    system.noting.Keeps (fun state => ∀ path ∈ state.2, writable path) writable where
  read _ _ holds := holds
  isDirectory _ _ holds := holds
  isThere _ _ holds := holds
  files _ _ holds := holds
  makeDirectory _ _ holds := holds
  write allowed _ _ holds := List.forall_mem_append.2 ⟨holds, by simpa using allowed⟩

end

/-- The files that are not below a directory stay as they are if only paths below it are written
to. -/
theorem FileTree.keeps_system (start : FileTree) (directory : String) :
    system.Keeps (fun tree => ∀ l, ¬ Path.location directory <:+ l → tree.fileAt l = start.fileAt l)
      (Path.IsBelow directory) where
  read _ _ holds := holds
  isDirectory _ _ holds := holds
  isThere _ _ holds := holds
  files _ _ holds := holds
  makeDirectory path tree holds := by
    show ∀ l, ¬ _ → (attempt id (·.makeDirectory path) tree).2.fileAt l = _
    rw [attempt]
    cases made : tree.makeDirectory path with
    | error fault => exact holds
    | ok tree' =>
      intro l outside
      rw [← holds l outside, ← fileAt_makeDirectory made]
  write := by
    intro path below content tree holds
    show ∀ l, ¬ _ → (attempt WriteFault.notCreated (·.write path content) tree).2.fileAt l = _
    rw [attempt]
    cases written : tree.write path content with
    | error fault => exact holds
    | ok tree' =>
      intro l outside
      have elsewhere : l ≠ Path.location path := by
        rintro rfl
        exact outside below.suffix
      rw [← holds l outside, ← fileAt_write written elsewhere]

/-! ### Names behind the filters -/

namespace Surroundings

variable {σ : Type} {s : Surroundings (StateM σ)} {t : Transform} {m : Markers} {w : Workspace}
  {start files : σ} {P : σ → Prop} {writable : String → Prop}

theorem filters_of_table (s : Surroundings (StateM σ)) {mappings : String}
    (given : t.mappings = some mappings) (m : Markers) (codec : ClassCodec) :
    s.filters t m codec = s.readTable mappings >>= fun table =>
      match Filter.table table codec with
      | .ok f => pure (f :: t.debug.toList.map (.strip · codec))
      | .error e => stop e.message := by
  rw [filters, given, Transform.debug]
  refine congrArg (fun k => (s.readTable mappings >>= k : Running (StateM σ) (FilterChain Id)))
    (funext fun table => ?_)
  cases (Filter.table table codec : Except Error (Filter Id)) with
  | error e => rfl
  | ok f =>
    cases t.strips || t.stripsAll with
    | true => rfl
    | false => rfl

/-- With a mapping file a transformation needs no markers. -/
theorem transform_eq_of_table (s : Surroundings (StateM σ)) {mappings : String}
    (given : t.mappings = some mappings) (m m' : Markers) : s.transform t m = s.transform t m' := by
  simp only [transform, filters_of_table s given]

theorem performWith_eq_of_table (s : Surroundings (StateM σ)) {mappings : String}
    (given : t.mappings = some mappings) (seed : Option UInt64) (m m' : Markers) :
    s.performWith m ⟨seed, .transform t⟩ = s.performWith m' ⟨seed, .transform t⟩ := by
  simp only [performWith, s.transform_eq_of_table given m m']

/-- A command is run with the markers of its seed, if the seed has any. -/
theorem perform_eq_of_seeded? {s : Surroundings (StateM σ)} {invocation : Invocation} {m : Markers}
    (drawn : Markers.seeded? (invocation.seed.getD s.freshSeed) = some m) :
    s.perform invocation = s.performWith m invocation := by
  rw [perform, drawn]

/-- Whether the names that a mapping file gives to the classes of a workspace, or leaves to them,
lead down. -/
def GivesDownward (s : Surroundings (StateM σ)) (t : Transform) (w : Workspace) (files : σ) : Prop :=
  ∀ mappings, t.mappings = some mappings →
    (s.readTable mappings).Ensures files fun read _ => ∀ table, read = .ok table →
      ∀ c ∈ w.primaryClasses, Path.IsDownward (table.outside c.name ++ ".json")

/-- Whether the names that a mapping file gives to the classes that are loaded, or leaves to them,
lead down. -/
def NamesLeadDown (s : Surroundings (StateM σ)) (t : Transform) (start : σ) : Prop :=
  (s.loadWorkspace t (fileCodec t.isPretty)).Ensures start fun loaded files =>
    ∀ w, loaded = .ok w → s.GivesDownward t w files

theorem namesLeadDown_of_tokens (s : Surroundings (StateM σ)) (tokens : t.mappings = none)
    (start : σ) : s.NamesLeadDown t start := by
  rintro _ _ _ _ _ _ _ mappings given
  rw [tokens] at given
  cases given

theorem keeps_filters (kept : s.files.Keeps P writable) (t : Transform) (m : Markers) :
    Running.Keeps P (s.filters t m (fileCodec t.isPretty)) := by
  cases given : t.mappings with
  | none =>
    rw [s.filters_of_tokens given]
    exact keeps_pure _
  | some mappings =>
    rw [s.filters_of_table given]
    refine (keeps_readTable kept mappings).bind fun table => ?_
    split
    · exact keeps_pure _
    · exact keeps_throw _

/-- Tokens lead down, and so do the names that a table gives or leaves if they are known to. -/
theorem ensures_filters (keyed : w.IsKeyed)
    (down : s.GivesDownward t w files) :
    (s.filters t m (fileCodec t.isPretty)).Ensures files fun made _ => ∀ chain, made = .ok chain →
      ∀ c ∈ w.primaryClasses, ∀ name, chain.applyName w.symbols c.name = pure name →
        Path.IsDownward (name ++ ".json") := by
  cases given : t.mappings with
  | none =>
    rw [s.filters_of_tokens given]
    refine (ends_pure _ files).ensures ?_
    rintro chain made c hc name named
    obtain rfl := Except.ok.inj made
    have primary := Workspace.isPrimary_symbols (keyed.mem_primaryClasses.1 hc)
    exact (Markers.isPlain_of_encode (encode_of_applyName primary named)).isDownward
  | some mappings =>
    rw [s.filters_of_table given]
    refine (down mappings given).bind (fun table files' known => ?_) (fun _ _ _ => nofun)
    cases made : (Filter.table table (fileCodec t.isPretty) : Except Error (Filter Id)) with
    | error e => exact (ends_throw _ files').ensures nofun
    | ok f =>
      refine (ends_pure _ files').ensures ?_
      rintro chain same c hc name named
      obtain rfl := Except.ok.inj same
      rw [applyName_cons_strip, Filter.filterName_table made] at named
      rw [← (Except.ok.inj named : table.outside c.name = name)]
      exact known table rfl c hc

/-- The file of a class has its name behind the filters. -/
theorem applyName_of_transformed {h : Handoff Id} {c : ClassInfo} {name : String}
    {bytes : Option ByteArray} (outcome : transformed h c = .ok (name, bytes)) :
    h.chain.applyName h.symbols c.name = pure name := by
  obtain ⟨sink, sent, rest⟩ := bind_eq_ok_iff.1 outcome
  obtain ⟨content, -, same⟩ := bind_eq_ok_iff.1 rest
  obtain ⟨rfl, -⟩ := Prod.mk.inj (Except.ok.inj same)
  exact (Handoff.of_sink sent).1

/-- **A transformation keeps what writing below its output directory keeps**, if the names of its
classes lead down. -/
theorem ensures_transform (kept : s.files.Keeps P (Path.IsBelow t.output)) (holds : P start)
    (down : s.NamesLeadDown t start) (m : Markers) :
    (s.transform t m).Ensures start fun _ files => P files := by
  have loading := keeps_loadWorkspace kept t (fileCodec t.isPretty) start holds
  have keyed := yields_iff.1 (s.isKeyed_of_loadWorkspace t (fileCodec t.isPretty)) start
  rw [transform]
  refine ((loading.and keyed).and down).bind (fun w files known => ?_) fun _ _ known => known.1.1
  obtain ⟨⟨holds, keyed⟩, down⟩ := known
  have filters := keeps_filters kept t m files holds
  have lead := ensures_filters (m := m) (keyed w rfl) (down w rfl)
  refine (filters.and lead).bind (fun chain files known => ?_) fun _ _ known => known.1
  obtain ⟨holds, lead⟩ := known
  refine keeps_foldlM (fun c hc stats => keeps_transformClass kept ?_ stats) {} files holds
  intro name bytes outcome
  exact ⟨_, lead chain rfl c hc name (applyName_of_transformed outcome), rfl⟩

end Surroundings

/-- **A transformation stays below its output directory**, if the names of its classes lead down;
without a mapping file they always do. All paths that it writes to are below the directory, and in a
tree no other file is made or changed. -/
theorem transform_stays_below (t : Transform) (m : Markers) :
    (t.mappings = none →
      ∀ (σ : Type) (s : Surroundings (StateM σ)) (start : σ), s.NamesLeadDown t start) ∧
    (∀ (σ : Type) (s : Surroundings (StateM σ)) (start : σ), s.noting.NamesLeadDown t (start, []) →
      (s.noting.transform t m).Ensures (start, []) fun _ state =>
        ∀ path ∈ state.2, Path.IsBelow t.output path) ∧
    ∀ (s : Surroundings (StateM FileTree)) (start : FileTree), s.files = FileTree.system →
      s.NamesLeadDown t start → (s.transform t m).Ensures start fun _ tree =>
        ∀ l, ¬ Path.location t.output <:+ l → tree.fileAt l = start.fileAt l := by
  refine ⟨fun tokens σ s start => s.namesLeadDown_of_tokens tokens start, ?_, ?_⟩
  · intro σ s start down
    exact Surroundings.ensures_transform (s.files.keeps_noting _) (by simp) down m
  · intro s start inMemory down
    have kept := start.keeps_system t.output
    rw [← inMemory] at kept
    exact Surroundings.ensures_transform kept (fun _ _ => rfl) down m

/-! ### A class and a mapping file -/

namespace Excursion

/-- A class below `in`, and a mapping file. -/
def files (document mappings : String) : FileTree where
  here := .directory [("in", .directory [("A.json", .file document.toUTF8)]),
    ("names.map", .file mappings.toUTF8)]

def surroundings : Surroundings (StateM FileTree) := ⟨FileTree.system, pure (.ok .empty), 7⟩

def transform : Transform := { input := "in", output := "out", mappings := some "names.map" }

def inwardDocument : String := "\x7b\"name\":\"a/A\"\x7d"

def inwardClass : ClassInfo := .ofClass { name := "a/A" } inwardDocument.toUTF8

/-- The mapping file gives the class a name that leads down. -/
def inward : FileTree := files inwardDocument "a/A b/B\n"

/-- The mapping file leaves the class a name that leads up. -/
def outward : FileTree := files "\x7b\"name\":\"../escaped\"\x7d" "# no entries\n"

/-- What a transformation comes to, with the paths that it writes to. -/
def ran (start : FileTree) :
    (Except Failure TransformStats × ByteArray) × (FileTree × List String) :=
  ((surroundings.noting.transform transform .sample).run.run .empty).run (start, [])

section

variable {σ : Type} {s : Surroundings (StateM σ)} {x : σ} {c : ClassInfo} {table : MappingTable}

/-- One class and one table are loaded, wherever they are read from. -/
theorem namesLeadDown (mappings : String) (isDirectory : s.files.isDirectory "in" x = (true, x))
    (listed : s.files.files "in" x = (["in/A.json"], x))
    (read : s.files.read "in/A.json" x = (.ok c.bytes, x))
    (readMappings : s.files.read "names.map" x = (.ok mappings.toUTF8, x))
    (isClass : ClassInfo.read (fileCodec false) c.bytes = .ok c)
    (isTable : MappingTable.parse mappings = .ok table)
    (down : Path.IsDownward (table.outside c.name ++ ".json")) : s.NamesLeadDown transform x := by
  have paths : Ends (s.classFiles "in") x (.ok ["in/A.json"]) x :=
    Surroundings.ends_classFiles isDirectory listed (by decide)
  have loaded : Ends (s.loadWorkspace transform (fileCodec transform.isPretty)) x
      (.ok (.addPrimary {} c)) x :=
    (Surroundings.ends_loadClasses paths (.cons ⟨read, isClass⟩ .nil)).bind (ends_pure _ x)
  refine loaded.ensures ?_
  intro w same mappings' given
  obtain rfl := Except.ok.inj same
  obtain rfl := Option.some.inj given
  refine (Surroundings.ends_readTable readMappings isTable).ensures ?_
  intro _ same c' hc'
  obtain rfl := Except.ok.inj same
  obtain rfl : c' = c := List.mem_singleton.1 hc'
  exact down

end

theorem read_inwardClass :
    ClassInfo.read (fileCodec false) inwardDocument.toUTF8 = .ok inwardClass := by
  have read : ((fileCodec false).read inwardDocument.toUTF8).toOption = some { name := "a/A" } := by
    decide +kernel
  exact ClassInfo.read_of_read (toOption_eq_some_iff.1 read)

/-- The first word of the keystream names a letter, so the seed has markers. -/
theorem exists_seeded? : ∃ m, Markers.seeded? surroundings.freshSeed = some m := by
  have letter : Markers.letter? (Markers.keystream (Markers.seedKey 7) 0) ≠ none := by
    decide +kernel
  refine Option.ne_none_iff_exists'.1 fun endless => ?_
  exact letter (Markers.seeded?_eq_none_iff.1 endless 0)

/-- The program transforms the class, with whatever markers it draws. -/
theorem run_transform :
    run surroundings.noting
        ["transform", "--input", "in", "--output", "out", "--mappings", "names.map"] none =
      (surroundings.noting.performWith .sample ⟨none, .transform transform⟩).outcome := by
  obtain ⟨m, drawn⟩ := exists_seeded?
  have parsed : Invocation.parse?
      ["transform", "--input", "in", "--output", "out", "--mappings", "names.map"] none =
        some ⟨none, .transform transform⟩ := by
    decide +kernel
  have performs : surroundings.noting.perform ⟨none, .transform transform⟩ =
      surroundings.noting.performWith m ⟨none, .transform transform⟩ :=
    Surroundings.perform_eq_of_seeded? drawn
  rw [run, parsed]
  show (surroundings.noting.perform _).outcome = _
  rw [performs, surroundings.noting.performWith_eq_of_table rfl none m .sample]

end Excursion

open Excursion in
/-- A class that is renamed. Its file is the only one that is written. -/
theorem transform_stays_below_renamed :
    (ran inward).1.1.toOption = some { written := 1 } ∧ (ran inward).2.2 = ["out/b/B.json"] ∧
      Path.IsBelow "out" "out/b/B.json" ∧
      (surroundings.transform transform .sample).Ensures inward fun _ tree =>
        tree.fileAt ["A.json", "in"] = some inwardDocument.toUTF8 := by
  have paths : (ran inward).2.2 = ["out/b/B.json"] := by decide +kernel
  obtain ⟨table, read⟩ : ∃ table, (MappingTable.parse "a/A b/B\n").toOption = some table :=
    Option.isSome_iff_exists.1 (by decide +kernel)
  have outside : (MappingTable.parse "a/A b/B\n").toOption.map (·.outside "a/A") = some "b/B" := by
    decide +kernel
  rw [read, Option.map_some, Option.some.injEq] at outside
  have down : Path.IsDownward (table.outside "a/A" ++ ".json") := by
    rw [outside]
    decide
  have isTable := toOption_eq_some_iff.1 read
  obtain ⟨-, below, kept⟩ := transform_stays_below transform .sample
  have leads : surroundings.NamesLeadDown transform inward :=
    namesLeadDown "a/A b/B\n" (c := inwardClass) rfl rfl rfl rfl read_inwardClass isTable down
  have leads' : surroundings.noting.NamesLeadDown transform (inward, []) :=
    namesLeadDown "a/A b/B\n" (c := inwardClass) rfl rfl rfl rfl read_inwardClass isTable down
  have ended : (ran inward).1.1.toOption = some { written := 1 } := by decide +kernel
  refine ⟨ended, paths, ?_, ?_⟩
  · have known : ∀ path ∈ (ran inward).2.2, Path.IsBelow "out" path := by
      rw [ran]
      exact (below FileTree surroundings inward leads').of_run .empty
    rw [paths, List.forall_mem_singleton] at known
    exact known
  · refine (kept surroundings inward rfl leads).mono fun _ tree same => ?_
    have outside : ¬ Path.location "out" <:+ ["A.json", "in"] := by decide
    have before : inward.fileAt ["A.json", "in"] = some inwardDocument.toUTF8 := rfl
    rw [same _ outside, before]

/-! ### Names that lead up -/

open Excursion in
/-- A class that keeps a name that leads up is written next to the output directory, and the program
ends well. -/
theorem transform_leaves_output_directory :
    let ran := (run surroundings.noting
      ["transform", "--input", "in", "--output", "out", "--mappings", "names.map"] none).run
        (outward, [])
    ran.1.exitCode = 0 ∧ ran.2.2 = ["out/../escaped.json"] ∧
      ¬ Path.IsBelow "out" "out/../escaped.json" ∧
      outward.fileAt ["escaped.json"] = none ∧ (ran.2.1.fileAt ["escaped.json"]).isSome = true := by
  rw [run_transform]
  intro ran
  have exits : ran.1.exitCode = 0 := by decide +kernel
  have paths : ran.2.2 = ["out/../escaped.json"] := by decide +kernel
  have there : (ran.2.1.fileAt ["escaped.json"]).isSome = true := by decide +kernel
  have before : outward.fileAt ["escaped.json"] = none := rfl
  refine ⟨exits, paths, fun below => ?_, before, there⟩
  have up : ¬ Path.IsDownward "../escaped.json" := by decide
  have joined : Path.IsBelow "out" (Path.join "out" "../escaped.json") := below
  exact up ((Path.isBelow_join_iff (by decide)).1 joined)

end Pseudonym
