import Pseudonym.Json.Number

/-!
# Decoding JSON values

Decoders for the shapes that class documents are made of. A record is an object with named members,
or an array with the members in order; a variant is an object with one member that names it. Members
that nobody asks for are skipped, whatever they hold.

Arrays and objects may be entered down to a fixed depth. The `Position` of a value says how many
levels are left. Instructions are taken in as a whole before their kind is known, so inside them
everything must be sound (`Value.isSound`), and a variant without content may have an empty object
there.
-/

namespace Pseudonym.Document

open Json

/-- Where a value stands. -/
structure Position where
  /-- How many more arrays and objects may be entered. -/
  levels : Nat
  /-- Whether the value is part of an instruction. -/
  inInstruction : Bool := false

/-- Inside an array or object, unless the depth is used up. -/
def Position.enter? (p : Position) : Option Position :=
  match p.levels with
  | 0 => none
  | levels + 1 => some { p with levels }

/-- What reads a value at a position. -/
abbrev Decoder (α : Type) := Position → Value → Option α

namespace Decoder

variable {α β : Type}

/-- A truth value. -/
def bool : Decoder Bool
  | _, .bool b => some b
  | _, _ => none

/-- A text. -/
def string : Decoder String
  | _, .string text => text
  | _, _ => none

/-- An integer from `low` to `high`. -/
def int (low high : Int) : Decoder Int
  | _, .number n => n.toInt?.filter fun i => low ≤ i && i ≤ high
  | _, _ => none

/-- An unsigned integer of 8 bits. -/
def uint8 : Decoder UInt8 := fun p v => (int 0 255 p v).map fun i => .ofNat i.toNat

/-- An unsigned integer of 16 bits. -/
def uint16 : Decoder UInt16 := fun p v => (int 0 65535 p v).map fun i => .ofNat i.toNat

/-- An unsigned integer of 32 bits. -/
def uint32 : Decoder UInt32 := fun p v => (int 0 0xFFFFFFFF p v).map fun i => .ofNat i.toNat

/-- An integer of 16 bits. -/
def int16 : Decoder Int16 := fun p v => (int Int16.minValue.toInt Int16.maxValue.toInt p v).map .ofInt

/-- An integer of 32 bits. -/
def int32 : Decoder Int32 := fun p v => (int Int32.minValue.toInt Int32.maxValue.toInt p v).map .ofInt

/-- An integer of 64 bits. -/
def int64 : Decoder Int64 := fun p v => (int Int64.minValue.toInt Int64.maxValue.toInt p v).map .ofInt

/-- A `float` by its bits. -/
def single : Decoder UInt32
  | _, .number n => n.toSingle?
  | _, _ => none

/-- A `double` by its bits. -/
def double : Decoder UInt64
  | _, .number n => n.toDouble?
  | _, _ => none

/-- A value that may be `null`. -/
def optional (item : Decoder α) : Decoder (Option α)
  | _, .null => some none
  | p, v => some <$> item p v

/-- An array. -/
def list (item : Decoder α) : Decoder (List α)
  | p, .array items => do
    let p ← p.enter?
    items.mapM (item p)
  | _, _ => none

/-- An array of two. -/
def pair (first : Decoder α) (second : Decoder β) : Decoder (α × β)
  | p, .array [a, b] => do
    let p ← p.enter?
    return (← first p a, ← second p b)
  | _, _ => none

/-- A variant without content: its name, or an object with the name and nothing. -/
def unit (ofName? : String → Option α) : Decoder α
  | _, .string (some name) => ofName? name
  | p, .object [(some name, content)] => do
    let p ← p.enter?
    match content with
    | .null => ofName? name
    | .object [] => if p.inInstruction then ofName? name else none
    | _ => none
  | _, _ => none

/-- A variant with content, which is read as its name says. -/
def variant (content : String → Decoder α) : Decoder α
  | p, .object [(some name, v)] => do
    let p ← p.enter?
    content name p v
  | _, _ => none

/-- The decoder that nothing passes. -/
def never : Decoder α := fun _ _ => none

/-- Tries a second decoder where the first one fails. -/
def orElse (first second : Decoder α) : Decoder α := fun p v => (first p v).or (second p v)

/-- A decoder followed by a function. -/
def map (f : α → β) (item : Decoder α) : Decoder β := fun p v => (item p v).map f

end Decoder

/-! ### Records -/

/-- The members of a record and the position they stand at. -/
structure Members where
  /-- The position of the members. -/
  position : Position
  /-- The members by name. -/
  values : List (String × Value)

/-- The keys of an object, unless one is not well-formed. -/
def keyed? (members : List (Option String × Value)) : Option (List (String × Value)) :=
  members.mapM fun (key, v) => key.map (·, v)

/-- Whether no name occurs twice among the members that have one of the given names. -/
def isUnambiguous (names : List String) (members : List (String × Value)) : Bool :=
  names.all fun name => members.countP (·.1 == name) ≤ 1

/-- The members of a record in object form. -/
def membersOfObject? (names : List String) (p : Position) (members : List (String × Value)) :
    Option Members :=
  if isUnambiguous names members then some ⟨p, members⟩ else none

/-- The members of a record in array form. Members are missing at the end only if all members have a
default. -/
def membersOfArray? (names : List String) (hasDefaults : Bool) (p : Position) (items : List Value) :
    Option Members :=
  if items.length ≤ names.length && (hasDefaults || items.length == names.length) then
    some ⟨p, names.zip items⟩
  else none

/-- The members of a record. -/
def members? (names : List String) (hasDefaults : Bool) (p : Position) : Value → Option Members
  | .object members => do
    membersOfObject? names (← p.enter?) (← keyed? members)
  | .array items => do
    membersOfArray? names hasDefaults (← p.enter?) items
  | _ => none

namespace Members

variable {α : Type}

/-- A member that must be there. -/
def get (r : Members) (name : String) (item : Decoder α) : Option α :=
  (r.values.lookup name).bind (item r.position)

def getD (r : Members) (name : String) (item : Decoder α) (default : α) : Option α :=
  match r.values.lookup name with
  | some v => item r.position v
  | none => some default

/-- A member that may be missing or `null`. -/
def get? (r : Members) (name : String) (item : Decoder α) : Option (Option α) :=
  r.getD name item.optional none

/-- A list that may be missing. -/
def getList (r : Members) (name : String) (item : Decoder α) : Option (List α) :=
  r.getD name item.list []

end Members

/-- A record of named members. -/
def Decoder.record {α : Type} (names : List String) (hasDefaults : Bool)
    (content : Members → Option α) : Decoder α :=
  fun p v => (members? names hasDefaults p v).bind content

/-! ### Sound values -/

mutual

/-- Whether all texts in a value are well-formed, all numbers are finite, and arrays and objects
nest at most as deep as there are levels. -/
def isSound (levels : Nat) : Value → Bool
  | .null | .bool _ => true
  | .number n => n.toDouble?.isSome
  | .string text => text.isSome
  | .array items =>
    match levels with
    | 0 => false
    | levels + 1 => areSound levels items
  | .object members =>
    match levels with
    | 0 => false
    | levels + 1 => membersAreSound levels members

/-- Whether all values are sound. -/
def areSound (levels : Nat) : List Value → Bool
  | [] => true
  | v :: vs => isSound levels v && areSound levels vs

/-- Whether all members are sound. -/
def membersAreSound (levels : Nat) : List (Option String × Value) → Bool
  | [] => true
  | (key, v) :: members => key.isSome && isSound levels v && membersAreSound levels members

end

/-- A variant that is named by the member `tag` of a record; the other members are its content. In
array form the name comes first. All of it must be sound. -/
def Decoder.tagged {α : Type} (tag : String) (names : String → Option (List String))
    (content : String → Members → Option α) : Decoder α
  | p, .object members => do
    guard (isSound p.levels (.object members))
    let members ← keyed? members
    let inside := { ← p.enter? with inInstruction := true }
    match members.filter (·.1 == tag) with
    | [(_, .string (some name))] =>
      let r ← membersOfObject? (← names name) inside (members.filter (·.1 != tag))
      content name r
    | _ => none
  | p, .array (.string (some name) :: items) => do
    guard (isSound p.levels (.array items))
    let inside := { ← p.enter? with inInstruction := true }
    let r ← membersOfArray? (← names name) false inside items
    content name r
  | _, _ => none

end Pseudonym.Document
