import Pseudonym.Proofs.Signature.Name

/-!
# Signatures that are renamed while they are read

The automaton that reads signatures never sees a new name, because renaming comes after reading.
Here is the other way to do it: one function for each kind of type, which reads from the front of a
text, hands a class to the renaming as soon as its name is complete, and writes while it reads. What
is written for a nested class depends on the new name of the class around it, so that new names are
passed along. `Pseudonym.Proofs.Signature.Automaton` says that both ways come to the same.

The functions call each other on what is left of the text. What they return says that less is left
than before (`Taken.shorter`), and so they end.
-/

namespace Pseudonym.Signature

open Descriptor Text

/-- What was read from the front of a text: at least one character. -/
structure Taken (text : List Char) where
  /-- What is written for it. -/
  written : List Char
  /-- The offset behind it. -/
  place : Nat
  /-- The text behind it. -/
  rest : List Char
  shorter : rest.length < text.length

namespace Taken

variable {text : List Char}

/-- A character that stays. -/
def char (c : Char) (place : Nat) (rest : List Char) : Taken (c :: rest) :=
  ⟨[c], place + c.utf8Size, rest, by simp⟩

def cons (c : Char) (t : Taken text) : Taken (c :: text) :=
  ⟨c :: t.written, t.place, t.rest, Nat.lt_succ_of_lt t.shorter⟩

/-- What was read behind `t` belongs to it. -/
def append (t : Taken text) (t' : Taken t.rest) : Taken text :=
  ⟨t.written ++ t'.written, t'.place, t'.rest, Nat.lt_trans t'.shorter t.shorter⟩

/-- Something else is written. -/
def replace (t : Taken text) (written : List Char) : Taken text := { t with written }

end Taken

namespace Descent

/-- Reads up to a stop, of which there must be one, but not at the front. -/
def readUntil (stops : Char → Bool) (missing empty : DescriptorFault) (place : Nat)
    (text : List Char) : Except DescriptorFault (Taken text) :=
  let name := text.takeWhile (!stops ·)
  let rest := text.dropWhile (!stops ·)
  if rest.isEmpty then .error missing
  else if full : name = [] then .error empty
  else .ok ⟨name, place + byteLength name, rest, by
    have split : (name ++ rest).length = text.length :=
      congrArg List.length List.takeWhile_append_dropWhile
    rw [List.length_append] at split
    have := List.length_pos_iff.2 full
    omega⟩

/-- Reads a name in a class type. -/
def readName (place : Nat) : (text : List Char) → Except DescriptorFault (Taken text) :=
  readUntil endsName .unterminatedClassType (.emptyName place) place

/-- Reads the semicolon at the end of a type. -/
def readSemicolon (place : Nat) : (text : List Char) → Except DescriptorFault (Taken text)
  | [] => .error .noSemicolonAtEnd
  | c :: rest => if c = ';' then .ok (.char c place rest) else .error (.noSemicolon c place)

section

variable {ω : Type} (f : String → Traced ω String) (signature : String)

def attempt {α : Type} (x : Except DescriptorFault α) : Traced ω α :=
  Traced.lift (located signature x)

/-- What is written for a name in a class type, behind the new name of the class that it is nested
in. -/
def shown (outer : Option String) (renamed : String) : List Char :=
  match outer with
  | none => renamed.toList
  | some outer => simpleName outer renamed

/-- Reads on behind what was read. -/
def followedBy {text : List Char} (first : Traced ω (Taken text))
    (behind : (t : Taken text) → Traced ω (Taken t.rest)) : Traced ω (Taken text) := do
  let t ← first
  t.append <$> behind t

/-- Reads on to the end of the signature. -/
def toEnd {text : List Char} (first : Traced ω (Taken text))
    (behind : Taken text → Traced ω (List Char)) : Traced ω (List Char) := do
  let t ← first
  (t.written ++ ·) <$> behind t

mutual

/-- A type that is not primitive. -/
def reference (place : Nat) (text : List Char) : Traced ω (Taken text) :=
  match text with
  | [] => attempt signature (.error .unexpectedSignatureEnd)
  | 'L' :: rest => .cons 'L' <$> segment none (place + 1) rest
  | 'T' :: rest => .cons 'T' <$>
    followedBy
      (attempt signature
        (readUntil (· == ';') .unexpectedSignatureEnd .emptyTypeVariable (place + 1) rest))
      fun name => attempt signature (readSemicolon name.place name.rest)
  | '[' :: rest => .cons '[' <$> javaType (place + 1) rest
  | c :: _ => attempt signature (.error (.unexpected c place))
termination_by 3 * text.length + 0
decreasing_by all_goals grind

/-- A type; `V` counts as one. -/
def javaType (place : Nat) (text : List Char) : Traced ω (Taken text) :=
  match text with
  | [] => reference place []
  | c :: rest =>
    if c == 'V' || (Primitive.ofLetter? c).isSome then return .char c place rest
    else reference place (c :: rest)
termination_by 3 * text.length + 1
decreasing_by all_goals grind

/-- A name in a class type and all that follows it, nested in a class that has a name and a new
name. -/
def segment (outer : Option (String × String)) (place : Nat) (text : List Char) :
    Traced ω (Taken text) := do
  let simple ← attempt signature (readName place text)
  let name := nestedName (outer.map (·.1)) simple.written
  let renamed ← f name
  (simple.replace (shown (outer.map (·.2)) renamed)).append <$>
    behindSegment name renamed simple.place simple.rest
termination_by 3 * text.length + 2
decreasing_by
  have := simple.shorter
  omega

/-- The type arguments of a class, if there are any, and what follows them. -/
def behindSegment (name renamed : String) (place : Nat) (text : List Char) :
    Traced ω (Taken text) :=
  match text with
  | '<' :: rest => .cons '<' <$>
    followedBy (arguments (place + 1) rest) fun inside =>
      suffixes name renamed inside.place inside.rest
  | text => suffixes name renamed place text
termination_by 3 * text.length + 1
decreasing_by
  · grind
  · have := inside.shorter
    grind
  · grind

/-- The classes that are nested in a class, and the end of its type. -/
def suffixes (name renamed : String) (place : Nat) (text : List Char) : Traced ω (Taken text) :=
  match text with
  | '.' :: rest => .cons '.' <$> segment (some (name, renamed)) (place + 1) rest
  | text => attempt signature (readSemicolon place text)
termination_by 3 * text.length + 0
decreasing_by grind

/-- Type arguments, and the end of their list. -/
def arguments (place : Nat) (text : List Char) : Traced ω (Taken text) :=
  match text with
  | [] => attempt signature (.error .unterminatedTypeArguments)
  | '>' :: rest => return .char '>' place rest
  | '*' :: rest => .cons '*' <$> arguments (place + 1) rest
  | c :: rest =>
    if c == '+' || c == '-' then
      .cons c <$> followedBy (reference (place + c.utf8Size) rest) fun bound =>
        arguments bound.place bound.rest
    else
      followedBy (reference place (c :: rest)) fun first => arguments first.place first.rest
termination_by 3 * text.length + 1
decreasing_by
  · grind
  · grind
  · have := bound.shorter
    grind
  · grind
  · have := first.shorter
    grind

end

mutual

/-- Type parameters, and the end of their list. -/
def typeParameters (place : Nat) (text : List Char) : Traced ω (Taken text) :=
  match text with
  | [] => attempt signature (.error .unterminatedTypeParameters)
  | '>' :: rest => return .char '>' place rest
  | text =>
    followedBy
      (attempt signature
        (readUntil (· == ':') .unexpectedSignatureEnd .emptyTypeParameter place text))
      fun name => bounds name.place name.rest
termination_by 3 * text.length + 0
decreasing_by
  have := name.shorter
  omega

/-- The bounds of a type parameter, and the type parameters behind it. -/
def bounds (place : Nat) (text : List Char) : Traced ω (Taken text) :=
  match text with
  | ':' :: rest => .cons ':' <$> bound (place + 1) rest
  | text => typeParameters place text
termination_by 3 * text.length + 1
decreasing_by all_goals grind

/-- The bound behind a colon, which may be missing, and what follows it. -/
def bound (place : Nat) (text : List Char) : Traced ω (Taken text) :=
  if text.head? = some 'L' ∨ text.head? = some 'T' ∨ text.head? = some '[' then
    followedBy (reference f signature place text) fun type => bounds type.place type.rest
  else bounds place text
termination_by 3 * text.length + 2
decreasing_by
  · have := type.shorter
    omega
  · omega

end

/-- What a method throws, to the end of the signature. -/
def thrown (place : Nat) (text : List Char) : Traced ω (List Char) :=
  match text with
  | [] => return []
  | '^' :: rest => ('^' :: ·) <$>
    toEnd (reference f signature (place + 1) rest) fun type => thrown type.place type.rest
  | _ => attempt signature (.error (.trailing place))
termination_by text.length
decreasing_by
  have := type.shorter
  grind

/-- The parameters of a method and what follows them, to the end of the signature. -/
def parameters (place : Nat) (text : List Char) : Traced ω (List Char) :=
  match text with
  | ')' :: rest => (')' :: ·) <$>
    toEnd (javaType f signature (place + 1) rest) fun result =>
      thrown f signature result.place result.rest
  | text => toEnd (javaType f signature place text) fun type => parameters type.place type.rest
termination_by text.length
decreasing_by exact type.shorter

/-- The type of a field, or the supertypes of a class, to the end of the signature. -/
def supertypes (place : Nat) (text : List Char) : Traced ω (List Char) :=
  match text with
  | [] => return []
  | c :: rest =>
    toEnd (reference f signature place (c :: rest)) fun type => supertypes type.place type.rest
termination_by text.length
decreasing_by exact type.shorter

/-- What follows the type parameters, to the end of the signature. -/
def body (place : Nat) (text : List Char) : Traced ω (List Char) :=
  match text with
  | '(' :: rest => ('(' :: ·) <$> parameters f signature (place + 1) rest
  | text => supertypes f signature place text

/-- Renames the classes in a signature while it is read. -/
def rename : Traced ω String :=
  String.ofList <$> match signature.toList with
    | [] => attempt signature (.error .emptySignature)
    | '<' :: rest => ('<' :: ·) <$>
      toEnd (typeParameters f signature 1 rest) fun inside =>
        body f signature inside.place inside.rest
    | text => body f signature 0 text

end

end Descent

end Pseudonym.Signature
