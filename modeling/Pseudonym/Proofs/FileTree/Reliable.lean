import Mathlib.Logic.Function.Basic
import Pseudonym.FileTree
import Pseudonym.Proofs.FileTree.Path

/-!
# File systems that do not fail

`FileSystem.Reliable` states what a program may rely on below one directory, as long as the names of
its files are plain and fit into the file system: directories are made unless a file is in the way,
a file that is new can be written once its directory is there, and nothing else changes. What stands
below the directory is seen through `find?`.
-/

namespace Pseudonym

/-- What stands under a name. -/
inductive Entry where
  | file (content : ByteArray)
  | directory

namespace FileSystem

/-- A file system that does what it is told, below one directory and for names that fit. -/
structure Reliable {σ : Type} (files : FileSystem (StateM σ)) (directory : String)
    (fits : String → Prop) where
  /-- What stands under a name below the directory. -/
  find? : σ → String → Option Entry
  /-- Whether no file is where the directory should be, or on the way to it. -/
  IsSound : σ → Prop
  /-- Whether the directory is there that a name is looked up in. -/
  IsOpen : σ → String → Prop
  isThere_eq {x : σ} {name : String} (sound : IsSound x) (plain : Path.IsPlain name)
    (fit : fits name) :
    files.isThere (Path.join directory name) x = ((find? x name).isSome, x)
  /-- Directories are made, and nothing else. -/
  exists_makeDirectories {x : σ} {name parent : String} (sound : IsSound x)
    (plain : Path.IsPlain name) (fit : fits name)
    (inside : Path.parent? (Path.join directory name) = some parent)
    (free : ∀ around content, Path.LeadsTo around name → find? x around ≠ some (.file content)) :
    ∃ x', files.makeDirectories parent x = (.ok (), x') ∧ IsSound x' ∧ IsOpen x' name ∧
      ∀ other, find? x' other = find? x other ∨
        Path.LeadsTo other name ∧ find? x' other = some .directory
  /-- A new file is written, and nothing else. -/
  exists_write {x : σ} {name : String} (sound : IsSound x) (plain : Path.IsPlain name)
    (fit : fits name) (opened : IsOpen x name) (new : find? x name = none)
    (content : ByteArray) :
    ∃ x', files.write (Path.join directory name) content x = (.ok (), x') ∧ IsSound x' ∧
      find? x' = Function.update (find? x) name (some (.file content))

namespace Reliable

variable {σ : Type} {files : FileSystem (StateM σ)} {directory : String} {fits : String → Prop}

/-- Whether nothing is below the directory, and nothing keeps it from being made. -/
structure IsEmpty (d : Reliable files directory fits) (x : σ) : Prop where
  sound : d.IsSound x
  find?_eq (name : String) : d.find? x name = none

end Reliable

end FileSystem

end Pseudonym
