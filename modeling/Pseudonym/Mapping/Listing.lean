import Pseudonym.Descriptor.Scan
import Pseudonym.Mapping.Table
import Pseudonym.Text.Blank
import Pseudonym.Text.Cut

/-!
# Mapping files

A mapping file lists one entry a line, and words on a line are divided by blanks:

    com/example/Old com/example/New
    com/example/Old.field newField
    com/example/Old.field I newField
    com/example/Old.method(ILjava/lang/String;)V newMethod

The first word that starts with `#` begins a comment. Local variables have no written form.
-/

namespace Pseudonym

open Text

/-- Owner and name of a member that is written with a point between them. -/
def memberOfText (member : List Char) : Except LineFault (String × String) :=
  match cutLast? (· == '.') member with
  | some (owner, name) =>
    if owner.isEmpty || name.isEmpty then .error (.notAMember (String.ofList member))
    else .ok (String.ofList owner, String.ofList name)
  | none => .error (.notAMember (String.ofList member))

/-- Names the descriptor on a line that a fault was found in. -/
def onLine {α : Type} (descriptor : List Char) : Except DescriptorFault α → Except LineFault α
  | .ok a => .ok a
  | .error fault => .error (.descriptor (String.ofList descriptor) fault)

namespace MappingEntry

/-- The entry that two words spell. A parenthesis makes the first one a method, else a point makes
it a field. -/
def ofPair (target new : List Char) : Except LineFault MappingEntry := do
  if target.contains '(' then
    let descriptor := target.dropWhile (· != '(')
    let _ ← onLine descriptor (MethodDescriptor.ofText descriptor)
    let (owner, name) ← memberOfText (target.takeWhile (· != '('))
    return .method ⟨owner, name, String.ofList descriptor⟩ (String.ofList new)
  else if target.contains '.' then
    let (owner, name) ← memberOfText target
    return .field ⟨owner, name, none⟩ (String.ofList new)
  else
    return .class (String.ofList target) (String.ofList new)

/-- The entry that three words spell: a field with its descriptor. -/
def ofTriple (target descriptor new : List Char) : Except LineFault MappingEntry := do
  let _ ← onLine descriptor (TypeDescriptor.ofText descriptor)
  let (owner, name) ← memberOfText target
  return .field ⟨owner, name, some (String.ofList descriptor)⟩ (String.ofList new)

/-- The words of a line in front of its comment. -/
def wordsOfLine (line : List Char) : List (List Char) :=
  (words line).takeWhile (·.head? != some '#')

def ofLine (line : List Char) : Except LineFault (Option MappingEntry) :=
  match wordsOfLine line with
  | [] => .ok none
  | [target, new] => some <$> ofPair target new
  | [target, descriptor, new] => some <$> ofTriple target descriptor new
  | words => .error (.columns words.length)

def toLine? : MappingEntry → Option String
  | .class old new => some s!"{old} {new}"
  | .field ⟨owner, name, some descriptor⟩ new => some s!"{owner}.{name} {descriptor} {new}"
  | .field ⟨owner, name, none⟩ new => some s!"{owner}.{name} {new}"
  | .method ⟨owner, name, descriptor⟩ new => some s!"{owner}.{name}{descriptor} {new}"
  | .variable .. => none

end MappingEntry

namespace MappingTable

/-- Adds the entry of a line, which is given with its number from zero. -/
def insertLine (t : MappingTable) (line : List Char × Nat) : Except Error MappingTable :=
  match MappingEntry.ofLine line.1 with
  | .ok entry => .ok (entry.elim t t.insert)
  | .error fault => .error (.badMappingLine (line.2 + 1) fault)

/-- Reads a mapping file. -/
def parse (text : String) : Except Error MappingTable :=
  (lines text.toList).zipIdx.foldlM insertLine {}

/-- The mapping file of a table. -/
def toText (t : MappingTable) : String :=
  String.join ((t.entries.filterMap MappingEntry.toLine?).map (· ++ "\n"))

end MappingTable

end Pseudonym
