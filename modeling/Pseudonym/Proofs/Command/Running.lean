import Mathlib.Data.List.Forall2
import Pseudonym.Command.Run
import Pseudonym.Proofs.FileTree.Reliable

/-!
# How a command ends

`Running.Ends x files result files'` says that a command gives a result and leaves files, whatever
has been printed before. A command is followed step by step, by the rule for `>>=` after success
(`Ends.bind`) and after a failure (`Ends.bind_error`). Where it is not known in full how a command
ends, `Running.Ensures x files Q` says that everything it comes to, with success or not, has a
property.

Files that are written below a directory of a reliable file system are there afterwards
(`ends_writeFile`).
-/

namespace Pseudonym

namespace Running

variable {σ α β : Type} {x : Running (StateM σ) α} {k : α → Running (StateM σ) β}
  {files files' files'' : σ}

/-- Whether a command ends with a result and leaves files in a state. -/
def Ends (x : Running (StateM σ) α) (files : σ) (result : Except Failure α) (files' : σ) : Prop :=
  ∀ printed, ∃ printed', (x.run.run printed).run files = ((result, printed'), files')

theorem ends_pure (a : α) (files : σ) : Ends (pure a : Running (StateM σ) α) files (.ok a) files :=
  fun printed => ⟨printed, rfl⟩

theorem ends_throw (failure : Failure) (files : σ) :
    Ends (throw failure : Running (StateM σ) α) files (.error failure) files :=
  fun printed => ⟨printed, rfl⟩

theorem Ends.bind {a : α} {result : Except Failure β} (h : Ends x files (.ok a) files')
    (h' : Ends (k a) files' result files'') : Ends (x >>= k) files result files'' := by
  intro printed
  obtain ⟨printed', run⟩ := h printed
  obtain ⟨printed'', run'⟩ := h' printed'
  refine ⟨printed'', ?_⟩
  rw [ExceptT.run_bind, StateT.run_bind, StateT.run_bind, run]
  exact run'

theorem Ends.bind_error {failure : Failure} (h : Ends x files (.error failure) files') :
    Ends (x >>= k) files (.error failure) files' := by
  intro printed
  obtain ⟨printed', run⟩ := h printed
  refine ⟨printed', ?_⟩
  rw [ExceptT.run_bind, StateT.run_bind, StateT.run_bind, run]
  rfl

theorem ends_printLine (line : String) (files : σ) :
    Ends (printLine line : Running (StateM σ) Unit) files (.ok ()) files :=
  fun printed => ⟨printed ++ (line ++ "\n").toUTF8, rfl⟩

theorem ends_onFiles {operation : StateM σ α} {a : α} (h : operation files = (a, files')) :
    Ends (onFiles operation) files (.ok a) files' := by
  intro printed
  refine ⟨printed, ?_⟩
  show (match operation files with | (a, files) => ((Except.ok a, printed), files)) = _
  rw [h]

theorem ends_tryOn {ε : Type} {operation : StateM σ (Except ε α)} {a : α} (saying : ε → Failure)
    (h : operation files = (.ok a, files')) :
    Ends (tryOn saying operation) files (.ok a) files' :=
  (ends_onFiles h).bind (ends_pure a files')

/-- Steps that leave the files alone, one for each of some inputs. -/
theorem ends_mapM {f : α → Running (StateM σ) β} {as : List α} {bs : List β}
    (each : List.Forall₂ (fun a b => Ends (f a) files (.ok b) files) as bs) :
    Ends (as.mapM f) files (.ok bs) files := by
  induction each with
  | nil => exact ends_pure [] files
  | cons step _ ih =>
    rw [List.mapM_cons]
    exact step.bind (ih.bind (ends_pure _ files))

/-! ### Everything that a command may come to -/

section

variable {Q R : Except Failure α → σ → Prop} {Q' : Except Failure β → σ → Prop}

/-- Whether everything that a command comes to has a property. -/
def Ensures (x : Running (StateM σ) α) (files : σ) (Q : Except Failure α → σ → Prop) : Prop :=
  ∀ printed result printed' files',
    (x.run.run printed).run files = ((result, printed'), files') → Q result files'

/-- What is ensured holds of a run. -/
theorem Ensures.of_run (h : x.Ensures files Q) (printed : ByteArray) :
    Q ((x.run.run printed).run files).1.1 ((x.run.run printed).run files).2 :=
  h printed _ _ _ rfl

theorem Ensures.mono (h : x.Ensures files Q) (weaker : ∀ result files', Q result files' →
    R result files') : x.Ensures files R :=
  fun _ _ _ _ run => weaker _ _ (h _ _ _ _ run)

theorem Ensures.and (h : x.Ensures files Q) (h' : x.Ensures files R) :
    x.Ensures files fun result files' => Q result files' ∧ R result files' :=
  fun _ _ _ _ run => ⟨h _ _ _ _ run, h' _ _ _ _ run⟩

theorem Ends.ensures {result : Except Failure α} (h : Ends x files result files')
    (holds : Q result files') : x.Ensures files Q := by
  intro printed result' printed' files'' run
  obtain ⟨_, run'⟩ := h printed
  obtain ⟨⟩ := run.symm.trans run'
  exact holds

theorem Ensures.bind (h : x.Ensures files R)
    (ok : ∀ a files', R (.ok a) files' → (k a).Ensures files' Q')
    (error : ∀ failure files', R (.error failure) files' → Q' (.error failure) files') :
    (x >>= k).Ensures files Q' := by
  intro printed result printed' files' run
  rw [ExceptT.run_bind, StateT.run_bind, StateT.run_bind] at run
  obtain ⟨⟨⟨first, printed₁⟩, files₁⟩, ran⟩ : ∃ r, (x.run.run printed).run files = r := ⟨_, rfl⟩
  have known := h _ _ _ _ ran
  rw [ran] at run
  cases first with
  | ok a => exact ok a files₁ known _ _ _ _ run
  | error failure =>
    have same : ((Except.error failure, printed₁), files₁) = ((result, printed'), files') := run
    cases same
    exact error failure _ known

end

end Running

namespace FileSystem.Reliable

variable {σ : Type} {system : FileSystem (StateM σ)} {directory name : String}
  {fits : String → Prop} {files files' : σ} {content : ByteArray}

/-- What writing a file below a directory changes. -/
structure Gains (d : Reliable system directory fits) (files files' : σ) (name : String)
    (content : ByteArray) : Prop where
  sound : d.IsSound files'
  written : d.find? files' name = some (.file content)
  kept (other : String) (elsewhere : other ≠ name) : d.find? files' other = d.find? files other ∨
    Path.LeadsTo other name ∧ d.find? files' other = some .directory

end FileSystem.Reliable

namespace Surroundings

open Running FileSystem

variable {σ : Type} {s : Surroundings (StateM σ)} {directory name : String} {fits : String → Prop}
  {files : σ}

/-- **A new file is written**, with the directories on the way to it. -/
theorem ends_writeFile (d : s.files.Reliable directory fits) (sound : d.IsSound files)
    (plain : Path.IsPlain name) (fit : fits name) (new : d.find? files name = none)
    (free : ∀ around content, Path.LeadsTo around name →
      d.find? files around ≠ some (.file content)) (content : ByteArray) (isForced : Bool) :
    ∃ files', Ends (s.writeFile (Path.join directory name) content isForced) files (.ok ()) files' ∧
      d.Gains files files' name content := by
  obtain ⟨parent, inside⟩ := Path.exists_parent?_join plain directory
  obtain ⟨files₁, made, sound₁, opened, kept⟩ :=
    d.exists_makeDirectories sound plain fit inside free
  have new₁ : d.find? files₁ name = none := by
    rcases kept name with same | ⟨leads, _⟩
    · exact same.trans new
    · exact absurd leads (Path.not_leadsTo_self name)
  have asked := d.isThere_eq sound₁ plain fit
  obtain ⟨files₂, written, sound₂, changed⟩ := d.exists_write sound₁ plain fit opened new₁ content
  refine ⟨files₂, ?_, sound₂, by rw [changed, Function.update_self], fun other elsewhere => ?_⟩
  · rw [writeFile, inside]
    refine (ends_tryOn _ made).bind ?_
    refine (ends_onFiles asked).bind ?_
    rw [new₁]
    exact ends_tryOn _ written
  · rw [changed, Function.update_of_ne elsewhere]
    exact kept other

end Surroundings

end Pseudonym
