import Pseudonym.Proofs.Command.Loading

/-!
# What commands keep

A command keeps a property of files if the property holds afterwards whenever it held before, also
if the command fails (`Running.Keeps`).

A file system keeps a property, up to some paths, if all of its operations do, where only these
paths are written to. Then a transformation keeps the property too, as long as the classes that it
writes have such paths (`keeps_transformClass`): all else that it does is to read and to make
directories.
-/

namespace Pseudonym

namespace Running

variable {σ α β : Type} {x : Running (StateM σ) α} {k : α → Running (StateM σ) β} {P : σ → Prop}

/-- Whether a command leaves a property of files as it is. -/
def Keeps (P : σ → Prop) (x : Running (StateM σ) α) : Prop :=
  ∀ files, P files → x.Ensures files fun _ files' => P files'

theorem keeps_pure (a : α) : Keeps P (pure a : Running (StateM σ) α) :=
  fun files holds => (ends_pure a files).ensures holds

theorem keeps_throw (failure : Failure) : Keeps P (throw failure : Running (StateM σ) α) :=
  fun files holds => (ends_throw failure files).ensures holds

theorem Keeps.bind (h : Keeps P x) (h' : ∀ a, Keeps P (k a)) : Keeps P (x >>= k) :=
  fun files holds => (h files holds).bind (fun a files' holds' => h' a files' holds')
    fun _ _ holds' => holds'

theorem keeps_printLine (line : String) : Keeps P (printLine line : Running (StateM σ) Unit) :=
  fun files holds => (ends_printLine line files).ensures holds

theorem keeps_settle (purpose : String) (outcome : Except Error α) :
    Keeps P (settle purpose outcome : Running (StateM σ) α) := by
  cases outcome with
  | ok a => exact keeps_pure a
  | error e => exact keeps_throw _

theorem keeps_mapM {f : α → Running (StateM σ) β} (as : List α) (each : ∀ a, Keeps P (f a)) :
    Keeps P (as.mapM f) := by
  induction as with
  | nil => exact keeps_pure []
  | cons a as ih =>
    rw [List.mapM_cons]
    exact (each a).bind fun b => ih.bind fun bs => keeps_pure _

theorem keeps_foldlM {f : α → β → Running (StateM σ) α} {bs : List β}
    (each : ∀ b ∈ bs, ∀ a, Keeps P (f a b)) (a : α) : Keeps P (bs.foldlM f a) := by
  induction bs generalizing a with
  | nil => exact keeps_pure a
  | cons b bs ih =>
    rw [List.forall_mem_cons] at each
    rw [List.foldlM_cons]
    exact (each.1 a).bind (ih each.2)

end Running

/-! ### Operations on files -/

namespace FileSystem

variable {σ α β : Type} {system : FileSystem (StateM σ)} {P : σ → Prop} {writable : String → Prop}

/-- Whether an operation leaves a property of files as it is. -/
def Preserves (P : σ → Prop) (operation : StateM σ α) : Prop :=
  ∀ files, P files → P (operation.run files).2

/-- Whether all operations leave a property as it is, if only some paths are written to. -/
structure Keeps (system : FileSystem (StateM σ)) (P : σ → Prop) (writable : String → Prop) :
    Prop where
  read (path : String) : Preserves P (system.read path)
  isDirectory (path : String) : Preserves P (system.isDirectory path)
  isThere (path : String) : Preserves P (system.isThere path)
  files (directory : String) : Preserves P (system.files directory)
  makeDirectory (path : String) : Preserves P (system.makeDirectory path)
  write {path : String} (allowed : writable path) (content : ByteArray) :
    Preserves P (system.write path content)

theorem preserves_pure (a : α) : Preserves P (pure a : StateM σ α) := fun _ holds => holds

theorem Preserves.bind {operation : StateM σ α} {k : α → StateM σ β} (h : Preserves P operation)
    (h' : ∀ a, Preserves P (k a)) : Preserves P (operation >>= k) :=
  fun files holds => h' _ _ (h files holds)

theorem Preserves.map {operation : StateM σ α} (h : Preserves P operation) (f : α → β) :
    Preserves P (f <$> operation) := fun files holds => h files holds

theorem Keeps.orThere (kept : system.Keeps P writable) (path : String) (fault : FileFault) :
    Preserves P (system.orThere path fault) :=
  (kept.isDirectory path).bind fun _ => preserves_pure _

theorem Keeps.makeFirst (kept : system.Keeps P writable) (paths : List String) :
    Preserves P (system.makeFirst paths) := by
  induction paths with
  | nil => exact preserves_pure _
  | cons path around ih =>
    refine (kept.makeDirectory path).bind fun made => ?_
    split
    · exact preserves_pure _
    · refine ih.bind fun way => ?_
      split
      · exact preserves_pure _
      · refine (kept.makeDirectory path).bind fun made => ?_
        split
        · exact preserves_pure _
        · exact kept.orThere path _
    · exact kept.orThere path _

theorem Keeps.makeDirectories (kept : system.Keeps P writable) (path : String) :
    Preserves P (system.makeDirectories path) := kept.makeFirst _

end FileSystem

open Running FileSystem

section

variable {σ α : Type} {P : σ → Prop} {operation : StateM σ α}

theorem FileSystem.Preserves.onFiles (h : Preserves P operation) :
    Running.Keeps P (onFiles operation) := by
  intro files holds
  have ends := ends_onFiles (Prod.mk.eta (p := operation.run files)).symm
  exact ends.ensures (h files holds)

theorem FileSystem.Preserves.tryOn {ε : Type} {operation : StateM σ (Except ε α)}
    (h : Preserves P operation) (saying : ε → Failure) :
    Running.Keeps P (tryOn saying operation) := by
  refine h.onFiles.bind fun answer => ?_
  cases answer with
  | ok a => exact keeps_pure a
  | error fault => exact keeps_throw _

end

/-! ### Commands -/

namespace Surroundings

variable {σ : Type} {s : Surroundings (StateM σ)} {P : σ → Prop} {writable : String → Prop}

theorem keeps_writeFile (kept : s.files.Keeps P writable) {path : String}
    (allowed : writable path) (content : ByteArray) (isForced : Bool) :
    Running.Keeps P (s.writeFile path content isForced) := by
  have written : Running.Keeps P (do
      if (← onFiles (s.files.isThere path)) && !isForced then
        stop s!"File already exists: {path} (use --force to overwrite)"
      tryOn (WriteFault.failure path) (s.files.write path content)) := by
    refine (kept.isThere path).onFiles.bind fun isThere => ?_
    split
    · exact (keeps_throw _).bind fun _ => (kept.write allowed content).tryOn _
    · exact (kept.write allowed content).tryOn _
  rw [writeFile]
  cases Path.parent? path with
  | none => exact written
  | some parent => exact ((kept.makeDirectories parent).tryOn _).bind fun _ => written

theorem keeps_readTable (kept : s.files.Keeps P writable) (path : String) :
    Running.Keeps P (s.readTable path) :=
  (((kept.read path).map _).tryOn _).bind fun _ => keeps_settle _ _

theorem keeps_classFiles (kept : s.files.Keeps P writable) (directory : String) :
    Running.Keeps P (s.classFiles directory) := by
  have listed := (kept.files directory).onFiles
  refine (kept.isDirectory directory).onFiles.bind fun isDirectory => ?_
  cases isDirectory with
  | false => exact (keeps_throw _).bind fun _ => listed.bind fun _ => keeps_pure _
  | true => exact listed.bind fun _ => keeps_pure _

theorem keeps_loadClasses (kept : s.files.Keeps P writable) (codec : ClassCodec)
    (directory : String) : Running.Keeps P (s.loadClasses codec directory) := by
  refine (s.keeps_classFiles kept directory).bind fun paths => ?_
  refine (keeps_mapM paths fun path => ?_).bind fun _ => keeps_pure _
  refine ((kept.read path).tryOn _).bind fun bytes => ?_
  split
  · exact keeps_pure _
  · split
    · exact keeps_pure _
    · exact keeps_throw _

theorem keeps_loadWorkspace (kept : s.files.Keeps P writable) (t : Transform) (codec : ClassCodec) :
    Running.Keeps P (s.loadWorkspace t codec) := by
  refine (keeps_loadClasses kept codec t.input).bind fun infos => ?_
  exact keeps_foldlM (fun directory _ w =>
    (keeps_loadClasses kept codec directory).bind fun _ => keeps_pure _) _

theorem keeps_transformClass (kept : s.files.Keeps P writable) {t : Transform} {h : Handoff Id}
    {c : ClassInfo} (allowed : ∀ name bytes, transformed h c = .ok (name, some bytes) →
      writable (Path.join t.output (name ++ ".json"))) (stats : TransformStats) :
    Running.Keeps P (s.transformClass t h stats c) := by
  rw [transformClass]
  split
  · next name bytes outcome =>
    have written := keeps_writeFile kept (allowed name bytes outcome) bytes t.isForced
    split
    · exact (keeps_printLine _).bind fun _ => keeps_pure _
    · exact written.bind fun _ => (keeps_printLine _).bind fun _ => keeps_pure _
  · exact keeps_pure _
  · split
    · exact keeps_throw _
    · exact keeps_pure _

end Surroundings

end Pseudonym
