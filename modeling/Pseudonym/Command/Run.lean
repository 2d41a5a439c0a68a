import Pseudonym.Command
import Pseudonym.Command.Arguments
import Pseudonym.Document
import Pseudonym.FileTree
import Pseudonym.Handoff
import Pseudonym.Mapping.Listing
import Pseudonym.Markers.Seeded

/-!
# Running commands

A command reads and writes through a `FileSystem`, prints text, and may fail. What was printed or
written before a failure stays. A class that fails on its own does not keep the others from being
transformed, but it is counted; names that were replaced twice end the command.
-/

namespace Pseudonym

/-- Why a command ended early. -/
structure Failure where
  /-- What the command was about to do. -/
  message : String
  /-- What went wrong with it. -/
  cause : Option String := none
deriving DecidableEq, Repr

/-- What is said of a file that was not written. -/
def WriteFault.failure (path : String) : WriteFault → Failure
  | notCreated fault => ⟨s!"Failed to create file: {path}", some fault.message⟩
  | notFilled fault => ⟨s!"Failed to write file: {path}", some fault.message⟩

/-- A text with its lines indented. -/
def indented (text : String) : String :=
  "    " ++ "\n    ".intercalate ((Text.lines text.toList).map String.ofList)

def Failure.report (f : Failure) : String :=
  match f.cause with
  | none => "Error: " ++ f.message
  | some cause => "Error: " ++ f.message ++ "\n\nCaused by:\n" ++ indented cause

/-- What a command runs on. -/
structure Surroundings (m : Type → Type) where
  files : FileSystem m
  /-- Reads standard input. -/
  input : m (Except FileFault ByteArray)
  /-- The seed to use where none is given. -/
  freshSeed : UInt64

/-- A command that runs: it prints text and may fail. -/
abbrev Running (m : Type → Type) (α : Type) := ExceptT Failure (StateT ByteArray m) α

namespace Running

variable {m : Type → Type} [Monad m] {α : Type}

def print (text : ByteArray) : Running m Unit :=
  ExceptT.lift (modify (· ++ text))

def printLine (line : String) : Running m Unit := print (line ++ "\n").toUTF8

/-- Ends the command. -/
def stop (message : String) : Running m α := throw ⟨message, none⟩

/-- Runs an operation on files. -/
def onFiles (operation : m α) : Running m α := ExceptT.lift (StateT.lift operation)

/-- Runs an operation on files that may be refused, and ends with what is said of the refusal. -/
def tryOn {ε : Type} (saying : ε → Failure) (operation : m (Except ε α)) : Running m α := do
  match ← onFiles operation with
  | .ok a => return a
  | .error fault => throw (saying fault)

/-- Runs an operation on files that may be refused, and says what it was for. -/
def tryFiles (purpose : String) (operation : m (Except FileFault α)) : Running m α :=
  tryOn (fun fault => ⟨purpose, some fault.message⟩) operation

/-- Takes an outcome, and says what it was for. -/
def settle (purpose : String) : Except Error α → Running m α
  | .ok a => pure a
  | .error e => throw ⟨purpose, some e.message⟩

end Running

open Running

variable {m : Type → Type} [Monad m]

def textOf (bytes : ByteArray) : Except FileFault String :=
  match String.fromUTF8? bytes with
  | some text => .ok text
  | none => .error .notText

/-- What became of the classes of a transformation. -/
structure TransformStats where
  written : Nat := 0
  /-- How many classes failed on their own. -/
  failed : Nat := 0
deriving DecidableEq, Repr

/-- The codec for files, with line breaks or without. -/
def fileCodec (isPretty : Bool) : ClassCodec := documentCodec (if isPretty then some 0 else none)

namespace Surroundings

variable (s : Surroundings m)

/-- Writes a file and makes the directories on the way to it. -/
def writeFile (path : String) (content : ByteArray) (isForced : Bool) : Running m Unit := do
  match Path.parent? path with
  | some parent =>
    tryFiles s!"Failed to create directory: {parent}" (s.files.makeDirectories parent)
  | none => pure ()
  if (← onFiles (s.files.isThere path)) && !isForced then
    stop s!"File already exists: {path} (use --force to overwrite)"
  tryOn (WriteFault.failure path) (s.files.write path content)

/-- Writes to a file, or prints where there is none. -/
def writeOutput (path : Option String) (content : ByteArray) : Running m Unit :=
  match path with
  | some path => s.writeFile path content true
  | none => print content

/-- The text of a file, or of standard input where there is none. -/
def readInput : Option String → Running m String
  | some path =>
    tryFiles s!"Failed to read input file: {path}" ((· >>= textOf) <$> s.files.read path)
  | none => tryFiles "Failed to read stdin" ((· >>= textOf) <$> s.input)

/-- The table of a mapping file. -/
def readTable (path : String) : Running m MappingTable := do
  let text ← tryFiles s!"Failed to read mapping file: {path}"
    ((· >>= textOf) <$> s.files.read path)
  settle s!"Failed to parse mapping file: {path}" (MappingTable.parse text)

/-- The paths of the classes below a directory. -/
def classFiles (directory : String) : Running m (List String) := do
  if !(← onFiles (s.files.isDirectory directory)) then
    stop s!"Path is not a directory: {directory}"
  return (← onFiles (s.files.files directory)).filter fun path =>
    !Path.isHidden path && Path.extension? path == some "json"

/-- The classes below a directory. Files that hold no class are skipped. -/
def loadClasses (codec : ClassCodec) (directory : String) : Running m (List ClassInfo) := do
  let infos ← (← s.classFiles directory).mapM fun path => do
    let bytes ← tryFiles s!"Failed to read input file: {path}" (s.files.read path)
    match ClassInfo.read codec bytes with
    | .ok info => return some info
    | .error e =>
      if e.isRecoverable then return none
      else throw ⟨s!"Failed to load {path}", some e.message⟩
  return infos.reduceOption

/-- The workspace with the classes of several directories as libraries. -/
def addLibraries (codec : ClassCodec) (directories : List String) (w : Workspace) :
    Running m Workspace :=
  directories.foldlM
    (fun w directory => do return (← s.loadClasses codec directory).foldl .addLibrary w) w

/-! ### Commands -/

/-- Prints the tokens of names. -/
def encode (markers : Markers) (isClass : Bool) (names : List String) : Running m Unit :=
  names.forM fun name => do
    printLine (← settle s!"Failed to encode '{name}'" (markers.encode name isClass))

/-- Prints the names of tokens. -/
def decode (markers : Markers) (tokens : List String) : Running m Unit :=
  tokens.forM fun token => do
    printLine (← settle s!"Failed to decode '{token}'" (markers.decode token))

/-- Restores names in a text. -/
def restore (markers : Markers) (input output : Option String) : Running m Unit := do
  s.writeOutput output (markers.restore (← s.readInput input)).toUTF8

/-- The directory whose classes are next to a file. -/
def siblings (path : String) : String :=
  match Path.parent? path with
  | none | some "" => "."
  | some parent => parent

/-- Renames one class. Annotation interfaces are found next to it and in the libraries. -/
def remap (r : Remapping) : Running m Unit := do
  let codec := fileCodec r.isPretty
  let table ← s.readTable r.mappings
  let bytes ← tryFiles s!"Failed to read input file: {r.input}" (s.files.read r.input)
  let c ← settle s!"Failed to parse class: {r.input}" (codec.read bytes)
  let w ← s.addLibraries codec (siblings r.input :: r.libraries) {}
  let renamer : Renamer := ⟨table.mapping, some w.symbols⟩
  let remapped ← settle s!"Failed to remap {c.name}" (renamer.remap c)
  match codec.write remapped.result with
  | .ok written => s.writeOutput r.output written
  | .error e => stop e.message

/-- The filters of a transformation. -/
def filters (t : Transform) (markers : Markers) (codec : ClassCodec) :
    Running m (FilterChain Id) := do
  let naming : Filter Id ← match t.mappings with
    | some path =>
      match Filter.table (← s.readTable path) codec with
      | .ok filter => pure filter
      | .error e => stop e.message
    | none => pure (.transparent markers defaultReserved codec)
  let config : StripConfig := { lineNumbers := t.stripsAll, signatures := t.stripsAll }
  return if t.strips || t.stripsAll then [naming, .strip config codec] else [naming]

/-- The name and the content of a class behind the filters. -/
def transformed (h : Handoff Id) (info : ClassInfo) : Except Error (String × Option ByteArray) := do
  let sink ← (h.sink info).run.run
  return (sink.expected, ← (h.classBytes sink.expected).run.run)

/-- Transforms one class and counts it. -/
def transformClass (t : Transform) (h : Handoff Id) (stats : TransformStats) (info : ClassInfo) :
    Running m TransformStats := do
  match transformed h info with
  | .ok (name, some bytes) =>
    let path := Path.join t.output (name ++ ".json")
    if t.isDryRun then printLine s!"Would write: {path}"
    else
      s.writeFile path bytes t.isForced
      printLine s!"Wrote {path}"
    return { stats with written := stats.written + 1 }
  | .ok (_, none) => return { stats with failed := stats.failed + 1 }
  | .error e =>
    if e.isIntegrityViolation then
      throw ⟨s!"{info.name} was already transformed", some e.message⟩
    else return { stats with failed := stats.failed + 1 }

/-- The classes that are transformed, and the libraries. -/
def loadWorkspace (t : Transform) (codec : ClassCodec) : Running m Workspace := do
  let primary := (← s.loadClasses codec t.input).foldl .addPrimary {}
  s.addLibraries codec t.libraries primary

/-- Sends a directory of classes through the filters. -/
def transform (t : Transform) (markers : Markers) : Running m TransformStats := do
  let codec := fileCodec t.isPretty
  let w ← s.loadWorkspace t codec
  let h : Handoff Id := ⟨w.symbols, ← s.filters t markers codec⟩
  w.primaryClasses.foldlM (s.transformClass t h) {}

/-- Decoding without the seed of the tokens would find no token. -/
def needSeed (seed : Option UInt64) : Running m Unit :=
  if seed.isNone then stop "Decoding needs the --seed used when the tokens were produced" else pure ()

/-- Runs a command with the markers for its tokens. -/
def performWith (markers : Markers) (invocation : Invocation) : Running m Unit := do
  match invocation.command with
  | .encode names isClass => encode markers isClass names
  | .decode tokens =>
    needSeed invocation.seed
    decode markers tokens
  | .restore input output =>
    needSeed invocation.seed
    s.restore markers input output
  | .remap r => s.remap r
  | .transform t =>
    let stats ← s.transform t markers
    if stats.failed ≠ 0 then stop s!"{stats.failed} classes failed to transform"

/-- Runs a command. A seed without markers counts as a failure: nothing comes behind a search that
does not end. -/
def perform (invocation : Invocation) : Running m Unit :=
  match Markers.seeded? (invocation.seed.getD s.freshSeed) with
  | some markers => s.performWith markers invocation
  | none => stop "The seed has no markers"

end Surroundings

/-- What the program did, apart from files. -/
structure Outcome where
  exitCode : Nat
  /-- What was printed. -/
  output : ByteArray
  /-- Why the command ended early. -/
  failure : Option Failure

/-- What a command comes to: a failure exits with one. -/
def Running.outcome (command : Running m Unit) : m Outcome := do
  let (result, output) ← command.run.run .empty
  match result with
  | .ok () => return ⟨0, output, none⟩
  | .error failure => return ⟨1, output, some failure⟩

/-- Runs the program: a usage error exits with two. -/
def run (s : Surroundings m) (arguments : List String) (environment : Option String) : m Outcome :=
  match Invocation.parse? arguments environment with
  | none => return ⟨2, .empty, none⟩
  | some invocation => (s.perform invocation).outcome

end Pseudonym
