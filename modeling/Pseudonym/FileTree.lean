import Pseudonym.FileTree.Node

/-!
# Files and directories

A program sees files through a `FileSystem`, in any monad. A `FileTree` is a file system in memory:
it follows paths part by part, from a working directory or from the root, and refuses the operations
that an operating system refuses. All parts of a path but the last one must lead into directories
(`FileTree.locate`); what the last part may be depends on the operation.
-/

namespace Pseudonym

/-- Why an operation on files is refused. -/
inductive FileFault where
  | notFound
  /-- There is a file in the way. -/
  | alreadyExists
  /-- A path leads through a file. -/
  | notADirectory
  /-- A directory cannot be read or written as a file. -/
  | isADirectory
  | nameTooLong
  /-- A path holds a zero character. -/
  | zeroInPath
  /-- A file should hold text and does not. -/
  | notText
  /-- A fault that someone else describes. -/
  | stated (details : String)
deriving DecidableEq, Repr

/-- The wording of a fault. -/
def FileFault.message : FileFault → String
  | notFound => "No such file or directory (os error 2)"
  | alreadyExists => "File exists (os error 17)"
  | notADirectory => "Not a directory (os error 20)"
  | isADirectory => "Is a directory (os error 21)"
  | nameTooLong => "File name too long (os error 36)"
  | zeroInPath => "file name contained an unexpected NUL byte"
  | notText => "stream did not contain valid UTF-8"
  | stated details => details

/-- Why a file was not written. -/
inductive WriteFault where
  /-- There is no file to write to. -/
  | notCreated (fault : FileFault)
  /-- The file was created, but its content is not in it, or not all of it. -/
  | notFilled (fault : FileFault)
deriving DecidableEq, Repr

/-- What a program does with files. -/
structure FileSystem (m : Type → Type) where
  /-- The content of a file. -/
  read (path : String) : m (Except FileFault ByteArray)
  /-- Whether there is a directory. -/
  isDirectory (path : String) : m Bool
  /-- Whether there is a file or directory. -/
  isThere (path : String) : m Bool
  /-- The paths of the files below a directory, sorted part by part. Files whose paths are too long
  are left out. -/
  files (directory : String) : m (List String)
  /-- Makes one directory. -/
  makeDirectory (path : String) : m (Except FileFault Unit)
  /-- Writes a file, which may be there already. -/
  write (path : String) (content : ByteArray) : m (Except WriteFault Unit)

namespace FileSystem

variable {m : Type → Type} [Monad m] (s : FileSystem m)

/-- Accepts a refusal if the directory is there all the same. -/
def orThere (path : String) (fault : FileFault) : m (Except FileFault Unit) := do
  return if ← s.isDirectory path then .ok () else .error fault

/-- Makes the first of some directories, each of which is in the next one. If something on the way
is missing, the way is made first. -/
def makeFirst : List String → m (Except FileFault Unit)
  | [] => return .ok ()
  | path :: around => do
    match ← s.makeDirectory path with
    | .ok () => return .ok ()
    | .error .notFound =>
      match ← makeFirst around with
      | .error fault => return .error fault
      | .ok () =>
        match ← s.makeDirectory path with
        | .ok () => return .ok ()
        | .error fault => s.orThere path fault
    | .error fault => s.orThere path fault

/-- Makes a directory and all directories on the way to it that are missing. -/
def makeDirectories (path : String) : m (Except FileFault Unit) :=
  s.makeFirst (Path.ancestors path)

end FileSystem

/-- Where a directory or a file is: the names on the way from the working directory, the last one
first. A way out of the working directory begins with `..` and a way from the root with `/`. -/
abbrev Location := List String

/-- Whether a name begins a way that leads out of the working directory. -/
def isOutward (name : String) : Bool := name == ".." || name == "/"

/-- The location of the directory above a directory. -/
def Location.above : Location → Location
  | [] => [".."]
  | ["/"] => ["/"]
  | name :: way => if name = ".." then ".." :: ".." :: way else way

/-- A directory, by its location and its entries. -/
structure Place where
  location : Location
  /-- What is in the directory. -/
  entries : List (String × Node)

/-- What a path is about: the last part of the path, and the directory that it is looked up in. -/
structure Target where
  /-- The directory. -/
  place : Place
  /-- The last part. -/
  name : String
  /-- Whether a slash follows. -/
  hasSlash : Bool

/-- Whether the last part of a path leads to a directory that is there anyway. -/
def Target.isGiven (target : Target) : Bool := Path.isIdle target.name || target.name == ".."

/-- Files and directories in memory. -/
structure FileTree where
  /-- The working directory. Its entries `..` and `/` hold what is outside of it. -/
  here : Node := .directory []

namespace FileTree

variable (t : FileTree)

/-- The directory at a location. -/
def place (l : Location) : Place := ⟨l, ((t.here.at? l.reverse).map Node.entries).getD []⟩

/-- Goes from a directory to the one that a part of a path leads to. -/
def enter (p : Place) (part : String) : Except FileFault Place :=
  if Path.isLongPart part then .error .nameTooLong
  else if Path.isIdle part then .ok p
  else if part = ".." then .ok (t.place p.location.above)
  else
    match p.entries.lookup part with
    | none => .error .notFound
    | some (.file _) => .error .notADirectory
    | some (.directory entries) => .ok ⟨part :: p.location, entries⟩

/-- What a path is about. The path must not be empty. -/
def target (path : String) : Except FileFault Target := do
  let start := t.place (if path.toList.head? = some '/' then ["/"] else [])
  let parts := (Path.parts path).filter (· != "")
  let place ← parts.dropLast.foldlM t.enter start
  return ⟨place, parts.getLast?.getD ".", Path.endsWithSlash path⟩

/-- What a path is about, if the path is one. -/
def locate (path : String) : Except FileFault Target :=
  if path.toList.contains (Char.ofNat 0) then .error .zeroInPath
  else if Path.isLong path then .error .nameTooLong
  else if path = "" then .error .notFound
  else t.target path

/-- The node that a path leads to. -/
def find (path : String) : Except FileFault Node := do
  let target ← t.locate path
  if target.isGiven || target.hasSlash then
    return .directory (← t.enter target.place target.name).entries
  if Path.isLongPart target.name then throw .nameTooLong
  match target.place.entries.lookup target.name with
  | some node => return node
  | none => throw .notFound

/-- The content of a file. -/
def read (path : String) : Except FileFault ByteArray := do
  match ← t.find path with
  | .file content => return content
  | .directory _ => throw .isADirectory

def isDirectory (path : String) : Bool := (t.find path).toOption.any Node.isDirectory

/-- Whether there is a file or directory. -/
def isThere (path : String) : Bool := (t.find path).toOption.isSome

/-- The files of the tree below a directory. Their paths go on from the path of the directory. -/
def filesBelow (directory : String) (entries : List (String × Node)) : List (String × ByteArray) :=
  Node.filesOfEntries directory (entries.filter fun (name, _) => !isOutward name)

/-- The paths of the files below a directory. -/
def files (directory : String) : List String :=
  match t.find directory with
  | .ok (.directory entries) =>
    ((filesBelow directory entries).map Prod.fst).filter fun path => !Path.isLong path
  | _ => []

def put (target : Target) (node : Node) : FileTree :=
  ⟨t.here.put (target.name :: target.place.location).reverse node⟩

/-- Makes one directory. -/
def makeDirectory (path : String) : Except FileFault FileTree := do
  let target ← t.locate path
  if target.isGiven then throw .alreadyExists
  if Path.isLongPart target.name then throw .nameTooLong
  if (target.place.entries.lookup target.name).isSome then throw .alreadyExists
  return t.put target (.directory [])

def write (path : String) (content : ByteArray) : Except FileFault FileTree := do
  let target ← t.locate path
  if target.isGiven || target.hasSlash then throw .isADirectory
  if Path.isLongPart target.name then throw .nameTooLong
  if (target.place.entries.lookup target.name).any Node.isDirectory then throw .isADirectory
  return t.put target (.file content)

/-- The files below the working directory by their paths. -/
def toFiles : List (String × ByteArray) := filesBelow "" t.here.entries

/-- An operation that changes the tree if it succeeds, and otherwise says what fault it met. -/
def attempt {ε : Type} (saying : FileFault → ε) (change : FileTree → Except FileFault FileTree) :
    StateM FileTree (Except ε Unit) := fun t =>
  match change t with
  | .ok t' => (.ok (), t')
  | .error fault => (.error (saying fault), t)

/-- The file system that is a tree in memory. It has room for whatever a file is filled with. -/
def system : FileSystem (StateM FileTree) where
  read path := fun t => (t.read path, t)
  isDirectory path := fun t => (t.isDirectory path, t)
  isThere path := fun t => (t.isThere path, t)
  files directory := fun t => (t.files directory, t)
  makeDirectory path := attempt id (·.makeDirectory path)
  write path content := attempt .notCreated (·.write path content)

/-- The tree with one more file and the directories on the way to it. -/
def add (file : String × ByteArray) : FileTree :=
  let change : StateM FileTree Unit := do
    let _ ← system.makeDirectories ((Path.parent? file.1).getD "")
    let _ ← system.write file.1 file.2
  (change.run t).2

/-- The tree of some files, given by their paths. -/
def ofFiles (files : List (String × ByteArray)) : FileTree := files.foldl add {}

end FileTree

end Pseudonym
