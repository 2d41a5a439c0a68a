/-!
# Commands

What the program can be asked to do. Paths are texts.
-/

namespace Pseudonym

/-- How a directory of classes is sent through the filters. -/
structure Transform where
  /-- The directory of the primary classes. -/
  input : String
  /-- The directory for the classes behind the filters. -/
  output : String
  /-- Directories of libraries. -/
  libraries : List String := []
  /-- A mapping file, or none for tokens. -/
  mappings : Option String := none
  /-- Whether source files and local variables are removed. -/
  strips : Bool := false
  /-- Whether line numbers and signatures are removed as well. -/
  stripsAll : Bool := false
  /-- Whether classes are written with line breaks. -/
  isPretty : Bool := false
  /-- Whether files that are there already are replaced. -/
  isForced : Bool := false
  /-- Whether nothing is written after all. -/
  isDryRun : Bool := false
deriving DecidableEq, Repr

/-- How one class is renamed by a mapping file. -/
structure Remapping where
  mappings : String
  /-- The class. -/
  input : String
  /-- The file for the renamed class, or none for standard output. -/
  output : Option String := none
  /-- Directories of libraries. -/
  libraries : List String := []
  /-- Whether the class is written with line breaks. -/
  isPretty : Bool := false
deriving DecidableEq, Repr

/-- What the program is asked to do. -/
inductive Command where
  /-- Print the tokens of names. -/
  | encode (names : List String) (isClass : Bool)
  /-- Print the names of tokens. -/
  | decode (tokens : List String)
  /-- Restore names in a text, from a file or standard input to a file or standard output. -/
  | restore (input output : Option String)
  /-- Rename one class by a mapping file. -/
  | remap (remapping : Remapping)
  /-- Send a directory of classes through the filters. -/
  | transform (transform : Transform)
deriving DecidableEq, Repr

/-- A command and the seed of its markers. -/
structure Invocation where
  seed : Option UInt64
  command : Command
deriving DecidableEq, Repr

end Pseudonym
