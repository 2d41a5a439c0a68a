import Pseudonym.Proofs.Command.Running
import Pseudonym.Proofs.Workspace

/-!
# Workspaces that were loaded

Classes are loaded one after the other, and each is kept under its own name (`Workspace.IsKeyed`).
Loading may fail in many ways, and of a workspace that it yields nothing else is known; it does not
fail where every file can be read and holds a class (`ends_loadClasses`).
-/

namespace Pseudonym

/-! ### What loading yields -/

namespace Running

variable {σ α β : Type}

/-- Whether a command yields only values with a property, whatever happens to the files. -/
def Yields (x : Running (StateM σ) α) (P : α → Prop) : Prop :=
  ∀ printed files a printed' files',
    (x.run.run printed).run files = ((.ok a, printed'), files') → P a

variable {x : Running (StateM σ) α} {P : α → Prop} {Q : β → Prop}

theorem yields_pure {a : α} (h : P a) : Yields (pure a : Running (StateM σ) α) P := by
  intro printed files b printed' files' run
  have same : ((Except.ok a, printed), files) = ((Except.ok b, printed'), files') := run
  obtain ⟨⟩ := same
  exact h

theorem yields_iff :
    x.Yields P ↔ ∀ files, x.Ensures files fun result _ => ∀ a, result = .ok a → P a := by
  constructor
  · rintro h files printed _ printed' files' run a rfl
    exact h _ _ _ _ _ run
  · exact fun h printed files a printed' files' run => h files _ _ _ _ run a rfl

theorem Yields.bind {k : α → Running (StateM σ) β} (h : x.Yields P)
    (h' : ∀ a, P a → (k a).Yields Q) : Yields (x >>= k) Q := by
  rw [yields_iff]
  exact fun files => (yields_iff.1 h files).bind
    (fun a files' holds => yields_iff.1 (h' a (holds a rfl)) files') fun _ _ _ => nofun

theorem yields_true (x : Running (StateM σ) α) : x.Yields fun _ => True :=
  fun _ _ _ _ _ _ => trivial

theorem yields_foldlM {f : α → β → Running (StateM σ) α} {ys : List β} {a : α} (start : P a)
    (step : ∀ a y, P a → (f a y).Yields P) : (ys.foldlM f a).Yields P := by
  induction ys generalizing a with
  | nil => exact yields_pure start
  | cons y ys ih =>
    rw [List.foldlM_cons]
    exact (step a y start).bind fun _ => ih

end Running

theorem ClassInfo.read_of_read {codec : ClassCodec} {bytes : ByteArray} {c : ClassFile}
    (read : codec.read bytes = .ok c) : ClassInfo.read codec bytes = .ok (.ofClass c bytes) := by
  rw [ClassInfo.read, read]
  rfl

namespace Surroundings

open Running

variable {σ : Type} (s : Surroundings (StateM σ))

theorem isKeyed_of_loadWorkspace (t : Transform) (codec : ClassCodec) :
    (s.loadWorkspace t codec).Yields Workspace.IsKeyed := by
  refine (yields_true _).bind fun infos _ => ?_
  refine yields_foldlM (Workspace.isKeyed_empty.foldl_addPrimary infos) fun w directory keyed => ?_
  refine (yields_true _).bind fun libraries _ => yields_pure ?_
  rw [Workspace.IsKeyed, Workspace.primary_foldl_addLibrary]
  exact keyed

variable {s} {directory : String} {files : σ} {codec : ClassCodec}

theorem ends_classFiles {found paths : List String}
    (isDirectory : s.files.isDirectory directory files = (true, files))
    (listed : s.files.files directory files = (found, files))
    (kept : (found.filter fun path =>
      !Path.isHidden path && Path.extension? path == some "json") = paths) :
    Ends (s.classFiles directory) files (.ok paths) files := by
  subst kept
  exact (ends_onFiles isDirectory).bind ((ends_onFiles listed).bind (ends_pure _ files))

/-- Classes that are stored in files are loaded. -/
theorem ends_loadClasses {paths : List String} {infos : List ClassInfo}
    (listed : Ends (s.classFiles directory) files (.ok paths) files)
    (stored : List.Forall₂ (fun path info => s.files.read path files = (.ok info.bytes, files) ∧
      ClassInfo.read codec info.bytes = .ok info) paths infos) :
    Ends (s.loadClasses codec directory) files (.ok infos) files := by
  have kept : (infos.map some).reduceOption = infos :=
    List.filterMap_map.trans List.filterMap_some
  rw [← kept]
  refine listed.bind ((ends_mapM ?_).bind (ends_pure _ files))
  refine List.forall₂_map_right_iff.2 (stored.imp fun path info h => ?_)
  obtain ⟨read, isClass⟩ := h
  refine (ends_tryOn _ read).bind ?_
  rw [isClass]
  exact ends_pure _ files

theorem ends_readTable {path mappings : String} {table : MappingTable}
    (read : s.files.read path files = (.ok mappings.toUTF8, files))
    (isTable : MappingTable.parse mappings = .ok table) :
    Ends (s.readTable path) files (.ok table) files := by
  have isText : textOf mappings.toUTF8 = .ok mappings := by
    have valid : mappings.toUTF8.IsValidUTF8 := mappings.isValidUTF8
    rw [textOf, String.fromUTF8?, dif_pos valid]
    rfl
  have given : ((· >>= textOf) <$> s.files.read path) files = (.ok mappings, files) := by
    show ((s.files.read path files).1 >>= textOf, (s.files.read path files).2) = _
    rw [read, ← isText]
    rfl
  refine (ends_tryOn _ given).bind ?_
  rw [isTable]
  exact ends_pure table files

end Surroundings

end Pseudonym
