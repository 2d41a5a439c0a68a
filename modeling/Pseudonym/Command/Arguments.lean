import Pseudonym.Command
import Pseudonym.Text.Cut

/-!
# Command line arguments

Arguments are options, flags, words and the double dash, behind which everything is a word. An
option takes a value: `--seed 7`, `--seed=7`, `-s 7`, `-s7` and `-s=7` say the same. Flags may share
a dash with each other and with one option at the end. The first word is the command and decides
which options may follow; the options of the program itself may stand anywhere. Apart from counters
and lists no option or flag is given twice on one side of the command.

Reading is in two steps: `scan` sorts arguments into uses of options and words, and
`Invocation.parse?` makes a command of them. Whatever is no command is a usage error, which needs no
further words.
-/

namespace Pseudonym

open Text

namespace Arguments

/-- An option or flag that a command knows. -/
structure Switch where
  /-- The long name. -/
  long : String
  /-- The short name. -/
  short : Option Char := none
  /-- Whether a value follows. -/
  hasValue : Bool := false
deriving DecidableEq, Repr

/-- A use of an option, or of a flag if there is no value. -/
structure Use where
  /-- The long name. -/
  name : String
  value : Option String := none
deriving DecidableEq, Repr

/-- What an argument is. -/
inductive Token where
  /-- The double dash. -/
  | dashes
  | word (text : String)
  /-- Options and flags that are complete. -/
  | uses (uses : List Use)
  /-- Options and flags, and an option that lacks its value. -/
  | lacking (uses : List Use) (name : String)
  /-- Something that is not known. -/
  | unknown
deriving DecidableEq, Repr

/-- Reads a long option or flag behind its dashes. -/
def longToken (switches : List Switch) (text : List Char) : Token :=
  let name := String.ofList (text.takeWhile (· != '='))
  let value :=
    match text.dropWhile (· != '=') with
    | [] => none
    | _ :: value => some (String.ofList value)
  match switches.find? (·.long == name), value with
  | none, _ => .unknown
  | some switch, none => if switch.hasValue then .lacking [] name else .uses [⟨name, none⟩]
  | some switch, some value => if switch.hasValue then .uses [⟨name, some value⟩] else .unknown

/-- Reads short options and flags behind their dash. -/
def shortToken (switches : List Switch) : List Char → Token
  | [] => .uses []
  | c :: rest =>
    match switches.find? (·.short == some c) with
    | none => .unknown
    | some switch =>
      if switch.hasValue then
        match rest with
        | [] => .lacking [] switch.long
        | '=' :: value => .uses [⟨switch.long, some (String.ofList value)⟩]
        | value => .uses [⟨switch.long, some (String.ofList value)⟩]
      else
        match shortToken switches rest with
        | .uses uses => .uses (⟨switch.long, none⟩ :: uses)
        | .lacking uses name => .lacking (⟨switch.long, none⟩ :: uses) name
        | token => token

def token (switches : List Switch) (argument : String) : Token :=
  match argument.toList with
  | ['-', '-'] => .dashes
  | '-' :: '-' :: text => longToken switches text
  | ['-'] => .word argument
  | '-' :: text => shortToken switches text
  | _ => .word argument

/-- Whether an argument can be the value of the option in front of it. -/
def isValue (argument : String) : Bool :=
  match argument.toList with
  | ['-'] => true
  | '-' :: _ => false
  | _ => true

/-- Options and words, sorted. -/
structure Scan where
  /-- The uses of options and flags, in order. -/
  uses : List Use := []
  /-- The words, in order. -/
  words : List String := []
deriving DecidableEq, Repr

/-- Sorts arguments. -/
def scan (switches : List Switch) : List String → Option Scan
  | [] => some {}
  | argument :: rest =>
    match token switches argument with
    | .unknown => none
    | .dashes => some ⟨[], rest⟩
    | .word text => (scan switches rest).map fun s => { s with words := text :: s.words }
    | .uses uses => (scan switches rest).map fun s => { s with uses := uses ++ s.uses }
    | .lacking uses name =>
      match rest with
      | [] => none
      | value :: rest =>
        if isValue value then
          (scan switches rest).map fun s => { s with uses := uses ++ ⟨name, some value⟩ :: s.uses }
        else none

/-- Sorts arguments up to the first word, and gives it and the arguments behind it. -/
def scanToWord (switches : List Switch) : List String → Option (List Use × String × List String)
  | [] => none
  | argument :: rest =>
    match token switches argument with
    | .unknown | .dashes => none
    | .word text => some ([], text, rest)
    | .uses uses => (scanToWord switches rest).map fun (more, found) => (uses ++ more, found)
    | .lacking uses name =>
      match rest with
      | [] => none
      | value :: rest =>
        if isValue value then
          (scanToWord switches rest).map fun (more, found) =>
            (uses ++ ⟨name, some value⟩ :: more, found)
        else none

/-! ### Values -/

/-- The options of the program itself. -/
def programSwitches : List Switch := [⟨"seed", some 's', true⟩, ⟨"verbose", some 'v', false⟩]

/-- The digits of a number below ten to the power of their count. -/
def number? (digits : List Char) : Option Nat :=
  if digits.isEmpty || !digits.all Char.isDigit then none
  else some (digits.foldl (fun n c => n * 10 + (c.toNat - '0'.toNat)) 0)

/-- The seed that a text spells; a plus sign may precede it. -/
def seed? (text : String) : Option UInt64 := do
  let digits := match text.toList with
    | '+' :: digits => digits
    | digits => digits
  let n ← number? digits
  if n < UInt64.size then return .ofNat n else none

/-- The value of an option that may be given once. -/
def valueOf (uses : List Use) (name : String) : Option (Option String) :=
  match uses.filter (·.name == name) with
  | [] => some none
  | [use] => some use.value
  | _ => none

/-- The path that an option gives, which may be given once. No path is empty. -/
def pathOf (uses : List Use) (name : String) : Option (Option String) := do
  match ← valueOf uses name with
  | some path => if path = "" then none else return some path
  | none => return none

/-- Whether a flag is given, which may be given once. -/
def flagOf (uses : List Use) (name : String) : Option Bool :=
  match uses.countP (·.name == name) with
  | 0 => some false
  | 1 => some true
  | _ => none

/-- The paths that an option gives, which may be given any number of times. -/
def pathsOf (uses : List Use) (name : String) : Option (List String) :=
  let paths := uses.filterMap fun use => if use.name = name then use.value else none
  if paths.contains "" then none else some paths

/-- The seed among some uses of options. -/
def seedOf (uses : List Use) : Option (Option UInt64) := do
  match ← valueOf uses "seed" with
  | some text => some <$> seed? text
  | none => return none

/-! ### Commands -/

/-- The options of a command. -/
def switchesOf : String → Option (List Switch)
  | "encode" => some [⟨"class", some 'c', false⟩]
  | "decode" => some []
  | "restore" => some [⟨"output", some 'o', true⟩]
  | "remap" =>
    some [⟨"mappings", some 'm', true⟩, ⟨"output", some 'o', true⟩, ⟨"library", some 'l', true⟩,
      ⟨"pretty", none, false⟩]
  | "transform" =>
    some [⟨"input", some 'i', true⟩, ⟨"output", some 'o', true⟩, ⟨"library", some 'l', true⟩,
      ⟨"mappings", some 'm', true⟩, ⟨"strip", none, false⟩, ⟨"strip-all", none, false⟩,
      ⟨"pretty", none, false⟩, ⟨"force", none, false⟩, ⟨"dry-run", none, false⟩]
  | _ => none

/-- The command of a name, made of options and words. -/
def command? (name : String) (s : Scan) : Option Command := do
  match name, s.words with
  | "encode", word :: words => return .encode (word :: words) (← flagOf s.uses "class")
  | "decode", word :: words => return .decode (word :: words)
  | "restore", [] => return .restore none (← pathOf s.uses "output")
  | "restore", [input] =>
    if input = "" then none
    return .restore (some input) (← pathOf s.uses "output")
  | "remap", [input] =>
    if input = "" then none
    return .remap {
      mappings := ← (← pathOf s.uses "mappings")
      input := input
      output := ← pathOf s.uses "output"
      libraries := ← pathsOf s.uses "library"
      isPretty := ← flagOf s.uses "pretty" }
  | "transform", [] =>
    return .transform {
      input := ← (← pathOf s.uses "input")
      output := ← (← pathOf s.uses "output")
      libraries := ← pathsOf s.uses "library"
      mappings := ← pathOf s.uses "mappings"
      strips := ← flagOf s.uses "strip"
      stripsAll := ← flagOf s.uses "strip-all"
      isPretty := ← flagOf s.uses "pretty"
      isForced := ← flagOf s.uses "force"
      isDryRun := ← flagOf s.uses "dry-run" }
  | _, _ => none

/-- The seed to use: the one behind the command, else the one in front of it, else the one that the
environment gives. What the environment gives must be a seed as soon as either side lacks one. -/
def chooseSeed (front behind : Option UInt64) (environment : Option String) :
    Option (Option UInt64) := do
  match front, behind, environment with
  | some _, some seed, _ => return some seed
  | front, behind, none => return behind.or front
  | front, behind, some text =>
    let seed ← seed? text
    return some ((behind.or front).getD seed)

end Arguments

open Arguments

/-- What the arguments ask for, given the seed in the environment; `none` is a usage error. -/
def Invocation.parse? (arguments : List String) (environment : Option String) :
    Option Invocation := do
  let (front, name, rest) ← scanToWord programSwitches arguments
  let s ← scan (programSwitches ++ (← switchesOf name)) rest
  let seed ← chooseSeed (← seedOf front) (← seedOf s.uses) environment
  return ⟨seed, ← command? name s⟩

end Pseudonym
