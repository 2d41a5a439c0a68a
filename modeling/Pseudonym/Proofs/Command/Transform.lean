import Pseudonym.Proofs.Command.Classes
import Pseudonym.Proofs.Document.RoundTrip
import Pseudonym.Proofs.FileTree.InMemory

/-!
# A transformation loses nothing and duplicates nothing

With tokens for names and an empty output directory, what a transformation leaves can be read off
its classes: a class is written under its token if its content passes the filters, is counted as
failed if it does not, and ends the run if it was transformed before. No class is mistaken for
another one on the way (`Transform.LosesNothing`).

Three facts are joined here. Loading keeps every class under its own name, the run through the
classes accounts for each of them, and whatever keeps a class from having a token violates the
integrity.
-/

namespace Pseudonym

open Running

namespace Transform

/-- What is removed from classes, if anything is. -/
def debug (t : Transform) : Option StripConfig :=
  if t.strips || t.stripsAll then
    some { lineNumbers := t.stripsAll, signatures := t.stripsAll }
  else none

/-- The filters of a transformation without a mapping file. -/
def tokenFilters (t : Transform) (m : Markers) : FilterChain Id :=
  tokenChain m defaultReserved (fileCodec t.isPretty) t.debug

end Transform

section

variable {σ : Type} {s : Surroundings (StateM σ)} {t : Transform} {fits : String → Prop}
  {d : s.files.Reliable t.output fits} {c : ClassInfo} {files : σ} {m : Markers} {w : Workspace}

theorem Surroundings.filters_of_tokens (s : Surroundings (StateM σ))
    (tokens : t.mappings = none) (m : Markers) :
    s.filters t m (fileCodec t.isPretty) = pure (t.tokenFilters m) := by
  rw [filters, tokens, Transform.tokenFilters, tokenChain, Transform.debug]
  cases t.strips || t.stripsAll with
  | true => rfl
  | false => rfl

namespace Transform

/-- The content of a class behind the filters. -/
def content (t : Transform) (m : Markers) (w : Workspace) (c : ClassInfo) :
    Except Error ByteArray :=
  ((t.tokenFilters m).applyContent w.symbols c c.bytes).run.run

/-- How a transformation may end that loses no class and takes none for another. -/
structure LosesNothing (t : Transform) (m : Markers) (w : Workspace)
    (d : s.files.Reliable t.output fits) (result : Except Failure TransformStats) (files : σ) :
    Prop where
  /-- Only a class that has been transformed before ends the run, by its name or by its content. -/
  fails_iff : (∃ failure, result = .error failure) ↔
    ∃ c ∈ w.primaryClasses, ∃ e, e.isIntegrityViolation = true ∧
      (((t.tokenFilters m).applyName w.symbols c.name).run.run = .error e ∨
        t.content m w c = .error e)
  /-- Every class is counted once. -/
  total (stats : TransformStats) (ended : result = .ok stats) :
    stats.written + stats.failed = w.primary.size
  /-- The classes that are counted as failed are those whose content does not pass. -/
  failed (stats : TransformStats) (ended : result = .ok stats) :
    stats.failed = w.primaryClasses.countP fun c => !(t.content m w c).isOk
  /-- Every class has a token. -/
  named (stats : TransformStats) (ended : result = .ok stats) :
    ∀ c ∈ w.primaryClasses, ∃ token, m.encode c.name true = .ok token
  /-- The files below the output directory hold the classes that pass, under their tokens. -/
  file_iff (stats : TransformStats) (ended : result = .ok stats) (name : String)
    (bytes : ByteArray) : d.find? files name = some (.file bytes) ↔
      ∃ c ∈ w.primaryClasses, ∃ token, m.encode c.name true = .ok token ∧ name = token ++ ".json" ∧
        t.content m w c = .ok bytes
  /-- No two classes have one path. -/
  distinct : ∀ c ∈ w.primaryClasses, ∀ c' ∈ w.primaryClasses, ∀ token token',
    m.encode c.name true = .ok token → m.encode c'.name true = .ok token' →
      Path.join t.output (token ++ ".json") = Path.join t.output (token' ++ ".json") → c = c'
  /-- Every class is found by its name behind the filters. -/
  resolves : ∀ c ∈ w.primaryClasses, ∀ name,
    Surroundings.transformed ⟨w.symbols, t.tokenFilters m⟩ c ≠ .ok (name, none)

end Transform

section

variable {codec : ClassCodec} {read : ClassFile} (made : fileCodec t.isPretty = codec)
  (primary : w.symbols.isPrimary c.name = true) (isRead : codec.read c.bytes = .ok read)
include made primary isRead

theorem content_of_remap_error {e : Error}
    (refused : (Renamer.mk (.generated w.symbols m defaultReserved) (some w.symbols)).remap read =
      .error e) : t.content m w c = .error e := by
  rw [Transform.content, Transform.tokenFilters, applyContent_tokenChain, Filter.tokenContent,
    if_pos primary, Renamer.remapBytes, made, isRead]
  simp only [bind, Except.bind, refused]
  rfl

theorem content_of_remap {o : Remapped} {bytes : ByteArray}
    (renamed : (Renamer.mk (.generated w.symbols m defaultReserved) (some w.symbols)).remap read =
      .ok o) (modified : o.isModified = true) (written : codec.write o.result = .ok bytes) :
    t.content m w c = t.debug.elim (.ok bytes) (Filter.strippedContent · codec bytes) := by
  rw [Transform.content, Transform.tokenFilters, applyContent_tokenChain, Filter.tokenContent,
    if_pos primary, Renamer.remapBytes, made, isRead]
  simp only [bind, Except.bind, renamed, modified, if_true, written]
  rfl

end

theorem applyName_eq_ok_iff {token : String} (primary : w.symbols.isPrimary c.name = true) :
    ((t.tokenFilters m).applyName w.symbols c.name).run.run = .ok token ↔
      m.encode c.name true = .ok token := by
  rw [Transform.tokenFilters, applyName_tokenChain]
  exact Filter.tokenOfClass_eq_ok_iff primary

/-! The passage of a class fails with its name if that fails, else with its content. -/

theorem passage_eq_ok_iff {token : String} {bytes : ByteArray}
    (listed : w.primary[c.name]? = some c) :
    Handoff.passage ⟨w.symbols, t.tokenFilters m⟩ c = .ok (token, bytes) ↔
      m.encode c.name true = .ok token ∧ t.content m w c = .ok bytes := by
  rw [← applyName_eq_ok_iff (Workspace.isPrimary_symbols listed)]
  simp only [Handoff.passage, bind_eq_ok_iff, pure_eq_ok_iff, Prod.mk.injEq, Transform.content]
  constructor
  · rintro ⟨_, applied, _, content, rfl, rfl⟩
    exact ⟨applied, content⟩
  · rintro ⟨applied, content⟩
    exact ⟨token, applied, bytes, content, rfl, rfl⟩

theorem isOk_passage {token : String} (listed : w.primary[c.name]? = some c)
    (encoded : m.encode c.name true = .ok token) :
    (Handoff.passage ⟨w.symbols, t.tokenFilters m⟩ c).isOk = (t.content m w c).isOk := by
  cases content : t.content m w c with
  | ok bytes =>
    rw [(passage_eq_ok_iff listed).2 ⟨encoded, content⟩]
    rfl
  | error e =>
    cases passed : Handoff.passage ⟨w.symbols, t.tokenFilters m⟩ c with
    | error e' => rfl
    | ok passage =>
      have content' := ((passage_eq_ok_iff listed).1 passed).2
      cases content.symm.trans content'

theorem violates_iff (listed : w.primary[c.name]? = some c) :
    Handoff.Violates ⟨w.symbols, t.tokenFilters m⟩ c ↔ ∃ e, e.isIntegrityViolation = true ∧
      (((t.tokenFilters m).applyName w.symbols c.name).run.run = .error e ∨
        t.content m w c = .error e) := by
  have primary := Workspace.isPrimary_symbols listed
  unfold Handoff.Violates Handoff.passage Transform.content
  cases named : ((t.tokenFilters m).applyName w.symbols c.name).run.run with
  | error e =>
    -- Whatever its content comes to, a class that gets no token violates the integrity.
    have violation := isIntegrityViolation_of_applyName primary named
    exact iff_of_true ⟨e, rfl, violation⟩ ⟨e, violation, Or.inl rfl⟩
  | ok token =>
    cases ((t.tokenFilters m).applyContent w.symbols c c.bytes).run.run with
    | error e =>
      constructor
      · rintro ⟨e', failed, violation⟩
        cases failed
        exact ⟨e, violation, Or.inr rfl⟩
      · rintro ⟨e', violation, failed | failed⟩
        · cases failed
        · cases failed
          exact ⟨e, rfl, violation⟩
    | ok bytes =>
      constructor
      · rintro ⟨e, failed, _⟩
        cases failed
      · rintro ⟨e, _, failed | failed⟩
        · cases failed
        · cases failed

/-- A class that does not violate the integrity has a token. -/
theorem exists_encode_of_not_violates (listed : w.primary[c.name]? = some c)
    (harmless : ¬Handoff.Violates ⟨w.symbols, t.tokenFilters m⟩ c) :
    ∃ token, m.encode c.name true = .ok token := by
  have primary := Workspace.isPrimary_symbols listed
  cases named : ((t.tokenFilters m).applyName w.symbols c.name).run.run with
  | error e =>
    exact absurd ((violates_iff listed).2
      ⟨e, isIntegrityViolation_of_applyName primary named, Or.inl named⟩) harmless
  | ok token => exact ⟨token, encode_of_applyName primary named⟩

/-- Once the classes are loaded and nothing is below the output directory, the run can start. -/
theorem ready_of_isEmpty (keyed : w.IsKeyed) (empty : d.IsEmpty files)
    (fit : ∀ c ∈ w.primaryClasses, ∀ token, m.encode c.name true = .ok token →
      fits (token ++ ".json")) :
    Ready d m ⟨w.symbols, t.tokenFilters m⟩ files w.primaryClasses where
  sound := empty.sound
  resolves c hc := resolves_tokenChain (keyed.mem_primaryClasses.1 hc)
  encoded c hc token bytes passed :=
    ((passage_eq_ok_iff (keyed.mem_primaryClasses.1 hc)).1 passed).1
  distinct := keyed.nodup_primaryClasses
  writable c hc token encoded := {
    plain := Markers.isPlain_of_encode encoded
    fit := fit c hc token encoded
    new := empty.find?_eq _
    free := fun around content _ => by simp [empty.find?_eq] }

/-- No two primary classes have tokens that lead to one path. -/
theorem eq_of_join_encode {c' : ClassInfo} {token token' : String}
    (listed : w.primary[c.name]? = some c) (listed' : w.primary[c'.name]? = some c')
    (encoded : m.encode c.name true = .ok token) (encoded' : m.encode c'.name true = .ok token')
    (same : Path.join t.output (token ++ ".json") = Path.join t.output (token' ++ ".json")) :
    c = c' := by
  rw [Path.join_inj (Markers.isPlain_of_encode encoded) (Markers.isPlain_of_encode encoded'),
    String.append_left_inj] at same
  subst same
  have named := Markers.name_eq_of_encode encoded encoded'
  exact Option.some.inj (listed.symm.trans (named ▸ listed'))

/-- A run through all primary classes that settles loses none of them. -/
theorem losesNothing_of_settles (keyed : w.IsKeyed) (empty : d.IsEmpty files)
    {result : Except Failure TransformStats} {files' : σ}
    (settles : Settles d ⟨w.symbols, t.tokenFilters m⟩ w.primaryClasses {} files result files') :
    t.LosesNothing m w d result files' := by
  have found := fun c (hc : c ∈ w.primaryClasses) => keyed.mem_primaryClasses.1 hc
  exact {
    fails_iff := by
      rw [← settles.violates_iff]
      exact exists_congr fun c => and_congr_right fun hc => violates_iff (found c hc)
    total := by
      rintro stats rfl
      have accounts := settles.of_ok.2
      rw [accounts.written, accounts.failed, ← Workspace.length_primaryClasses,
        w.primaryClasses.length_eq_countP_add_countP
          fun c => (Handoff.passage ⟨w.symbols, t.tokenFilters m⟩ c).isOk]
      simp
    failed := by
      rintro stats rfl
      obtain ⟨harmless, accounts⟩ := settles.of_ok
      rw [accounts.failed, Nat.zero_add]
      refine List.countP_congr fun c hc => ?_
      obtain ⟨token, encoded⟩ := exists_encode_of_not_violates (found c hc) (harmless c hc)
      rw [isOk_passage (found c hc) encoded]
    named := by
      rintro stats rfl c hc
      exact exists_encode_of_not_violates (found c hc) (settles.of_ok.1 c hc)
    file_iff := by
      rintro stats rfl name bytes
      rw [settles.of_ok.2.file_iff, empty.find?_eq]
      simp only [reduceCtorEq, false_or]
      refine exists_congr fun c => and_congr_right fun hc => exists_congr fun token => ?_
      rw [passage_eq_ok_iff (found c hc)]
      tauto
    distinct := fun c hc c' hc' _ _ => eq_of_join_encode (found c hc) (found c' hc')
    resolves := fun c hc => (resolves_tokenChain (found c hc)).ne_none }

/-- **A transformation loses nothing and duplicates nothing.** -/
theorem transformation_loses_nothing (d : s.files.Reliable t.output fits) {start : σ}
    (tokens : t.mappings = none) (writes : t.isDryRun = false)
    (loaded : Ends (s.loadWorkspace t (fileCodec t.isPretty)) start (.ok w) files)
    (empty : d.IsEmpty files)
    (fit : ∀ c ∈ w.primaryClasses, ∀ token, m.encode c.name true = .ok token →
      fits (token ++ ".json")) :
    ∃ result files', Ends (s.transform t m) start result files' ∧
      t.LosesNothing m w d result files' := by
  have keyed : w.IsKeyed := by
    obtain ⟨_, run⟩ := loaded .empty
    exact s.isKeyed_of_loadWorkspace t _ _ _ _ _ _ run
  obtain ⟨result, files', run, settles⟩ :=
    exists_ends_foldlM {} writes (ready_of_isEmpty keyed empty fit)
  refine ⟨result, files', ?_, losesNothing_of_settles keyed empty settles⟩
  rw [Surroundings.transform]
  refine loaded.bind ?_
  rw [s.filters_of_tokens tokens, pure_bind]
  exact run

end

/-! ### A run -/

namespace Shop

open Document Json

def goodDocument : Value :=
  .record [("name", .text "a/B"), ("super_name", .text "x/S"), ("source_file", .text "B.java")]

/-- A document with a descriptor that is none. -/
def brokenDocument : Value :=
  .record [("name", .text "a/C"),
    ("fields", .array [.record [("name", .text "f"), ("descriptor", .text "X")]])]

def libraryDocument : Value := .record [("name", .text "x/S")]

def goodClass : ClassFile :=
  { name := "a/B", superName := some "x/S", sourceFile := some "B.java" }

def brokenClass : ClassFile :=
  { name := "a/C", fields := [{ name := "f", descriptor := "X" }] }

def libraryClass : ClassFile := { name := "x/S" }

/-- Two classes below `in` and one below `lib`. -/
def files : FileTree where
  here := .directory [
    ("in", .directory [("B.json", .file (compact goodDocument)),
      ("C.json", .file (compact brokenDocument))]),
    ("lib", .directory [("S.json", .file (compact libraryDocument))])]

def surroundings : Surroundings (StateM FileTree) := ⟨FileTree.system, pure (.ok .empty), 7⟩

def transform : Transform :=
  { input := "in", output := "out/classes", libraries := ["lib"], strips := true }

def good : ClassInfo := .ofClass goodClass (compact goodDocument)

def broken : ClassInfo := .ofClass brokenClass (compact brokenDocument)

def library : ClassInfo := .ofClass libraryClass (compact libraryDocument)

def workspace : Workspace :=
  ((({} : Workspace).addPrimary good).addPrimary broken).addLibrary library

theorem read_good : (documentCodec none).read (compact goodDocument) = .ok goodClass :=
  read_compact (by simp [goodDocument]) (by decide)

theorem read_broken : (documentCodec none).read (compact brokenDocument) = .ok brokenClass :=
  read_compact (by simp [brokenDocument]) (by decide)

theorem read_library : (documentCodec none).read (compact libraryDocument) = .ok libraryClass :=
  read_compact (by simp [libraryDocument]) (by decide)

theorem stored_good : ClassInfo.read (documentCodec none) (compact goodDocument) = .ok good :=
  ClassInfo.read_of_read read_good

theorem stored_broken :
    ClassInfo.read (documentCodec none) (compact brokenDocument) = .ok broken :=
  ClassInfo.read_of_read read_broken

theorem stored_library :
    ClassInfo.read (documentCodec none) (compact libraryDocument) = .ok library :=
  ClassInfo.read_of_read read_library

theorem ends_loadWorkspace :
    Ends (surroundings.loadWorkspace transform (fileCodec transform.isPretty)) files
      (.ok workspace) files := by
  have input : Ends (surroundings.loadClasses (documentCodec none) "in") files
      (.ok [good, broken]) files := by
    have found : FileTree.system.files "in" files = (["in/B.json", "in/C.json"], files) := rfl
    have listed : Ends (surroundings.classFiles "in") files
        (.ok ["in/B.json", "in/C.json"]) files :=
      Surroundings.ends_classFiles rfl found (by decide)
    exact Surroundings.ends_loadClasses listed
      (.cons ⟨rfl, stored_good⟩ (.cons ⟨rfl, stored_broken⟩ .nil))
  have libraries : Ends (surroundings.loadClasses (documentCodec none) "lib") files
      (.ok [library]) files := by
    have found : FileTree.system.files "lib" files = (["lib/S.json"], files) := rfl
    have listed : Ends (surroundings.classFiles "lib") files (.ok ["lib/S.json"]) files :=
      Surroundings.ends_classFiles rfl found (by decide)
    exact Surroundings.ends_loadClasses listed (.cons ⟨rfl, stored_library⟩ .nil)
  have added : Ends (surroundings.loadClasses (documentCodec none) "lib" >>= fun infos =>
      pure (infos.foldl .addLibrary (([good, broken]).foldl .addPrimary {}))) files
      (.ok workspace) files := libraries.bind (ends_pure workspace files)
  exact input.bind (added.bind (ends_pure workspace files))

theorem isEmpty_files (plain : Path.IsPlain "out/classes") :
    (FileTree.reliable plain).IsEmpty files where
  sound := by
    intro front content isFront file
    have parts : Path.parts "out/classes" = ["out", "classes"] := by decide
    rw [parts] at isFront
    cases front with
    | nil => cases file
    | cons step front =>
      obtain ⟨rfl, _⟩ := List.cons_prefix_cons.1 isFront
      cases file
  find?_eq name := by
    have parts : Path.parts "out/classes" = ["out", "classes"] := by decide
    show files.entryAt (Path.parts "out/classes" ++ Path.parts name) = none
    rw [parts]
    rfl

theorem keyed_workspace : workspace.IsKeyed := by
  show (((({} : Workspace).addPrimary good).addPrimary broken).addLibrary library).IsKeyed
  exact (Workspace.isKeyed_empty.addPrimary good).addPrimary broken

theorem primaryClasses : workspace.primaryClasses = [good, broken] := rfl

theorem mem_primaryClasses {c : ClassInfo} :
    c ∈ workspace.primaryClasses ↔ c = good ∨ c = broken := by simp [primaryClasses]

theorem encode_good : Markers.sample.encode good.name true =
    .ok "veil_Ab3xY7q_a__Zk2Pw_mask/veil_Ab3xY7q_B__Zk2Pw_mask" :=
  Markers.encode_eq_ok_iff.2 ⟨by decide, by decide⟩

theorem encode_broken : Markers.sample.encode broken.name true =
    .ok "veil_Ab3xY7q_a__Zk2Pw_mask/veil_Ab3xY7q_C__Zk2Pw_mask" :=
  Markers.encode_eq_ok_iff.2 ⟨by decide, by decide⟩

theorem fits : ∀ c ∈ workspace.primaryClasses, ∀ token,
    Markers.sample.encode c.name true = .ok token →
      Path.Fits (Path.join "out/classes" (token ++ ".json")) := by
  intro c hc token encoded
  rcases mem_primaryClasses.1 hc with rfl | rfl
  · obtain rfl := Except.ok.inj (encode_good.symm.trans encoded)
    exact ⟨by decide, by decide, by decide⟩
  · obtain rfl := Except.ok.inj (encode_broken.symm.trans encoded)
    exact ⟨by decide, by decide, by decide⟩

def renamer : Renamer :=
  ⟨.generated workspace.symbols .sample defaultReserved, some workspace.symbols⟩

theorem made : fileCodec transform.isPretty = documentCodec none := rfl

theorem bytes_good : good.bytes = compact goodDocument := by
  unfold good
  rfl

theorem bytes_broken : broken.bytes = compact brokenDocument := by
  unfold broken
  rfl

/-- What becomes of the good class before its source file is removed. -/
def renamedGood : ClassFile :=
  { goodClass with name := "veil_Ab3xY7q_a__Zk2Pw_mask/veil_Ab3xY7q_B__Zk2Pw_mask" }

theorem remap_good : ∃ o, renamer.remap goodClass = .ok o ∧ o.isModified = true ∧
    o.result = renamedGood := by
  have outcome : (renamer.remap goodClass).toOption.map (fun o => (o.isModified, o.result)) =
      some (true, renamedGood) := by decide
  obtain ⟨o, renamed, same⟩ := Option.map_eq_some_iff.1 outcome
  obtain ⟨modified, result⟩ := Prod.mk.inj same
  exact ⟨o, toOption_eq_some_iff.1 renamed, modified, result⟩

theorem remap_broken :
    ∃ e, renamer.remap brokenClass = .error e ∧ e.isIntegrityViolation = false := by
  have outcome : (match renamer.remap brokenClass with
      | .ok _ => true
      | .error e => e.isIntegrityViolation) = false := by decide
  cases refused : renamer.remap brokenClass with
  | ok o => simp [refused] at outcome
  | error e => exact ⟨e, rfl, by simpa [refused] using outcome⟩

theorem content_good : ∃ bytes, transform.content .sample workspace good = .ok bytes := by
  have primary : workspace.symbols.isPrimary good.name = true := by decide
  obtain ⟨o, renamed, modified, result⟩ := remap_good
  have reread : (documentCodec none).read (compact (ofClass renamedGood)) = .ok renamedGood :=
    read_compact (isWritten_ofClass _) (by decide)
  have touched : StripConfig.touches {} renamedGood = true := by decide
  refine ⟨compact (ofClass (StripConfig.strip {} renamedGood)), ?_⟩
  have isRead : (documentCodec none).read good.bytes = .ok goodClass := by
    rw [bytes_good, read_good]
  have written : (documentCodec none).write o.result = .ok (compact (ofClass renamedGood)) := by
    rw [result, write_compact]
  have debug : transform.debug = some {} := rfl
  rw [content_of_remap made primary isRead renamed modified written, debug, Option.elim_some,
    Filter.strippedContent, reread]
  simp only [bind, Except.bind, touched, if_true, write_compact]

theorem content_broken : ∃ e, transform.content .sample workspace broken = .error e ∧
    e.isIntegrityViolation = false := by
  have primary : workspace.symbols.isPrimary broken.name = true := by decide
  obtain ⟨e, refused, harmless⟩ := remap_broken
  have isRead : (documentCodec none).read broken.bytes = .ok brokenClass := by
    rw [bytes_broken, read_broken]
  exact ⟨e, content_of_remap_error made primary isRead refused, harmless⟩

end Shop

open Shop in
/-- Two classes and a library. One class cannot be renamed and is counted as failed; the file of the
other one is the only file below the output directory. -/
theorem transformation_loses_nothing_shop :
    ∃ (plain : Path.IsPlain "out/classes") (files' : FileTree) (bytes : ByteArray),
      let d := FileTree.reliable plain
      d.IsEmpty files ∧
        Ends (surroundings.loadWorkspace transform (fileCodec transform.isPretty)) files
          (.ok workspace) files ∧
        Ends (surroundings.transform transform .sample) files (.ok ⟨1, 1⟩) files' ∧
        ∀ name content, d.find? files' name = some (.file content) ↔
          name = "veil_Ab3xY7q_a__Zk2Pw_mask/veil_Ab3xY7q_B__Zk2Pw_mask.json" ∧
            content = bytes := by
  have plain : Path.IsPlain "out/classes" := by
    have parts : Path.parts "out/classes" = ["out", "classes"] := by decide
    intro part hpart
    rw [parts] at hpart
    simp only [List.mem_cons, List.not_mem_nil, or_false] at hpart
    rcases hpart with rfl | rfl
    · decide
    · decide
  obtain ⟨bytes, content⟩ := content_good
  obtain ⟨e, content', harmless⟩ := content_broken
  obtain ⟨result, files', run, lossless⟩ := transformation_loses_nothing (s := surroundings)
    (t := transform) (m := .sample) (FileTree.reliable plain) rfl rfl ends_loadWorkspace
    (isEmpty_files plain) fits
  have quiet : ¬∃ failure, result = .error failure := by
    rw [lossless.fails_iff]
    rintro ⟨c, hc, e', violation, failed⟩
    have primary := Workspace.isPrimary_symbols (keyed_workspace.mem_primaryClasses.1 hc)
    rcases mem_primaryClasses.1 hc with rfl | rfl
    · rw [(applyName_eq_ok_iff primary).2 encode_good, content] at failed
      simp at failed
    · rw [(applyName_eq_ok_iff primary).2 encode_broken, content'] at failed
      simp only [reduceCtorEq, Except.error.injEq, false_or] at failed
      exact absurd violation (by simp [← failed, harmless])
  cases result with
  | error failure => exact absurd ⟨failure, rfl⟩ quiet
  | ok stats =>
    have failed : stats.failed = 1 := by
      rw [lossless.failed stats rfl, primaryClasses]
      simp [content, content', Except.isOk, Except.toBool]
    have written : stats.written = 1 := by
      have total := lossless.total stats rfl
      rw [← Workspace.length_primaryClasses, primaryClasses, failed] at total
      exact Nat.succ.inj total
    obtain ⟨_, _⟩ := stats
    obtain rfl := written
    obtain rfl := failed
    refine ⟨plain, files', bytes, isEmpty_files plain, ends_loadWorkspace, run, ?_⟩
    intro name bytes'
    refine (lossless.file_iff _ rfl name bytes').trans ?_
    have fileName : "veil_Ab3xY7q_a__Zk2Pw_mask/veil_Ab3xY7q_B__Zk2Pw_mask" ++ ".json" =
        "veil_Ab3xY7q_a__Zk2Pw_mask/veil_Ab3xY7q_B__Zk2Pw_mask.json" := by decide
    simp only [primaryClasses, List.mem_cons, List.not_mem_nil, or_false, exists_eq_or_imp,
      exists_eq_left, encode_good, encode_broken, content, content', Except.ok.injEq, reduceCtorEq,
      and_false, exists_false, fileName, eq_comm]

end Pseudonym
