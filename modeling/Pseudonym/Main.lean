import Pseudonym.Command.Run

/-!
# The program

Runs a command on the files of the operating system, with standard input and a seed from the
environment or from a source of randomness.
-/

namespace Pseudonym

/-- Whether an error carries the number of a fault, as it is or negated. -/
def isNumbered (code fault : UInt32) : Bool := code == fault || code == 0 - fault

/-- What a failed operation on files says. -/
def faultOf : IO.Error → FileFault
  | .noFileOrDirectory .. => .notFound
  | .alreadyExists .. => .alreadyExists
  | .inappropriateType _ code details =>
    if isNumbered code 20 then .notADirectory
    else if isNumbered code 21 then .isADirectory
    else .stated details
  | .invalidArgument _ code details =>
    if isNumbered code 36 then .nameTooLong
    else if isNumbered code 22 then .zeroInPath
    else .stated details
  | e => .stated (toString e)

/-- Runs an operation that may be refused. -/
def refusable {α : Type} (operation : IO α) : IO (Except FileFault α) := do
  try return .ok (← operation)
  catch e => return .error (faultOf e)

/-- Runs a look-up in the file system that gives a default if it is refused. -/
def orElse {α : Type} (default : α) (operation : IO α) : IO α := do
  try operation
  catch _ => return default

/-- The root of the entry is the path as it is given. -/
def entryAt (path : String) : IO.FS.DirEntry := ⟨path, ""⟩

/-- Whether a path leads to a file, or to a link to a file. -/
def isFile (path : String) : IO Bool :=
  orElse false do return (← (entryAt path).root.metadata).type == .file

/-- Whether a path leads to a directory. A link to a directory is none. -/
def isOwnDirectory (path : String) : IO Bool :=
  orElse false do return (← (entryAt path).root.symlinkMetadata).type == .dir

/-- The paths of the files below a directory, sorted part by part. Links to directories are not
followed. -/
partial def filesBelow (directory : String) : IO (List String) := do
  let entries ← orElse #[] (entryAt directory).root.readDir
  let names := (entries.map fun entry => entry.fileName).qsort (· < ·)
  let below ← names.toList.mapM fun name => do
    let path := Path.join directory name
    if ← isOwnDirectory path then filesBelow path
    else if ← isFile path then return [path]
    else return []
  return below.flatten

/-- Writes a file, which may be there already. -/
def writeFile (path : String) (content : ByteArray) : IO (Except WriteFault Unit) := do
  match ← refusable (IO.FS.Handle.mk path .write) with
  | .error fault => return .error (.notCreated fault)
  | .ok file =>
    return (← refusable (do file.write content; file.flush)).mapError .notFilled

/-- The files of the operating system. -/
def systemFiles : FileSystem IO where
  read path := refusable (IO.FS.readBinFile path)
  isDirectory path := (entryAt path).root.isDir
  isThere path := (entryAt path).root.pathExists
  files directory := filesBelow directory
  makeDirectory path := refusable (IO.FS.createDir path)
  write path content := writeFile path content

/-- Reads standard input to its end. -/
partial def readInput (input : IO.FS.Stream) (start : ByteArray) : IO ByteArray := do
  let more ← input.read 65536
  if more.isEmpty then return start else readInput input (start ++ more)

/-- A seed from the source of randomness. -/
def randomSeed : IO UInt64 := do
  return (← IO.getRandomBytes 8).toList.foldl (fun n b => n * 256 + b.toUInt64) 0

/-- Runs the program and gives its exit code. -/
def runProgram (arguments : List String) : IO UInt32 := do
  let surroundings : Surroundings IO :=
    ⟨systemFiles, do refusable (readInput (← IO.getStdin) .empty), ← randomSeed⟩
  let outcome ← run surroundings arguments (← IO.getEnv "VEIL_SEED")
  let output ← IO.getStdout
  output.write outcome.output
  output.flush
  match outcome.failure with
  | some failure => IO.eprintln failure.report
  | none => pure ()
  return .ofNat outcome.exitCode

end Pseudonym

def main (arguments : List String) : IO UInt32 := Pseudonym.runProgram arguments
