import Pseudonym.Descriptor

/-!
# Reading descriptors

The scanners read one type from the front of a text and return what is left of it. Offsets in faults
are bytes from the start of the whole descriptor, of which the scanners know the length: the offset
of a place is that length less what is left there.

`scanMethod` reads as many parameters as it can and says how it ended, so that a reader who acts on
each type as it comes knows what was read before a fault.
-/

namespace Pseudonym

open Text

namespace Descriptor

/-- The offset of the place where `rest` is left of a text of `total` bytes. -/
def offset (total : Nat) (rest : List Char) : Nat := total - byteLength rest

/-- Reads the type behind `dimensions` brackets. -/
def scanElement (total dimensions : Nat) (text : List Char) :
    Except DescriptorFault (ElementType × List Char) :=
  match text with
  | [] => .error (if dimensions = 0 then .unexpectedEnd else .arrayWithoutElement)
  | 'L' :: rest =>
    match rest.dropWhile (· != ';') with
    | [] => .error (.unterminatedObject (offset total text))
    | _ :: after =>
      let name := rest.takeWhile (· != ';')
      if name.isEmpty then .error (.emptyName (offset total text))
      else
        match name.find? isIllegalInName with
        | some c => .error (.illegalInName c)
        | none => .ok (.object (String.ofList name), after)
  | c :: rest =>
    match Primitive.ofLetter? c with
    | some kind => .ok (.primitive kind, rest)
    | none => .error (.unexpected c (offset total text))

/-- Reads the type of a value. -/
def scanField (total : Nat) (text : List Char) : Except DescriptorFault (FieldType × List Char) := do
  let dimensions := (text.takeWhile (· == '[')).length
  let (element, rest) ← scanElement total dimensions (text.dropWhile (· == '['))
  return (⟨dimensions, element⟩, rest)

/-- Reads a type or `V`. -/
def scanType (total : Nat) (text : List Char) :
    Except DescriptorFault (TypeDescriptor × List Char) :=
  match text with
  | 'V' :: rest => .ok (.void, rest)
  | _ => do
    let (type, rest) ← scanField total text
    return (.value type, rest)

/-- Reads a type or `V` with which the text ends. -/
def scanLast (total : Nat) (text : List Char) : Except DescriptorFault TypeDescriptor := do
  let (type, rest) ← scanType total text
  if rest.isEmpty then return type else .error (.trailing (offset total rest))

theorem length_scanElement {total dimensions : Nat} {text rest : List Char} {e : ElementType}
    (h : scanElement total dimensions text = .ok (e, rest)) : rest.length < text.length := by
  unfold scanElement at h
  split at h
  · simp at h
  · next tail =>
    split at h
    · simp at h
    · next c after hd =>
      simp only at h
      split at h
      · simp at h
      · split at h
        · simp at h
        · simp only [Except.ok.injEq, Prod.mk.injEq] at h
          have := (List.dropWhile_sublist (· != ';') (l := tail)).length_le
          rw [hd] at this
          simp only [List.length_cons] at this ⊢
          rw [← h.2]
          omega
  · split at h
    · simp only [Except.ok.injEq, Prod.mk.injEq] at h
      simp [h.2]
    · simp at h

theorem length_scanField {total : Nat} {text rest : List Char} {t : FieldType}
    (h : scanField total text = .ok (t, rest)) : rest.length < text.length := by
  unfold scanField at h
  simp only [bind, Except.bind] at h
  split at h
  · simp at h
  · next found he =>
    simp only [pure, Except.pure, Except.ok.injEq, Prod.mk.injEq] at h
    have := length_scanElement he
    have := (List.dropWhile_sublist (· == '[') (l := text)).length_le
    rw [← h.2]
    omega

/-- What a reader of a method descriptor finds: the parameters up to the first fault, and then the
fault or the result. -/
structure MethodScan where
  /-- The parameters that could be read, in order. -/
  parameters : List FieldType
  /-- The result, or what ended the reading before it. -/
  ending : Except DescriptorFault TypeDescriptor

/-- Reads parameters, the closing parenthesis and the result. -/
def scanParameters (total : Nat) (text : List Char) : MethodScan :=
  match text with
  | [] => ⟨[], .error .unterminatedParameters⟩
  | ')' :: rest => ⟨[], scanLast total rest⟩
  | c :: rest =>
    match _h : scanField total (c :: rest) with
    | .error fault => ⟨[], .error fault⟩
    | .ok (type, after) =>
      let scan := scanParameters total after
      ⟨type :: scan.parameters, scan.ending⟩
termination_by text.length
decreasing_by
  exact length_scanField _h

/-- Reads a method descriptor. -/
def scanMethod (text : List Char) : MethodScan :=
  match text with
  | '(' :: rest => scanParameters (byteLength text) rest
  | _ => ⟨[], .error .noParameters⟩

/-- Names the descriptor that a fault was found in. -/
def located {α : Type} (descriptor : String) : Except DescriptorFault α → Except Error α
  | .ok a => .ok a
  | .error fault => .error (.malformedDescriptor descriptor fault)

end Descriptor

open Descriptor

/-- The type that a text spells. -/
def TypeDescriptor.ofText (text : List Char) : Except DescriptorFault TypeDescriptor :=
  scanLast (byteLength text) text

/-- The method type that a text spells. -/
def MethodDescriptor.ofText (text : List Char) : Except DescriptorFault MethodDescriptor :=
  let scan := scanMethod text
  scan.ending.map (⟨scan.parameters, ·⟩)

def TypeDescriptor.parse (descriptor : String) : Except Error TypeDescriptor :=
  located descriptor (TypeDescriptor.ofText descriptor.toList)

def MethodDescriptor.parse (descriptor : String) : Except Error MethodDescriptor :=
  located descriptor (MethodDescriptor.ofText descriptor.toList)

/-- The internal name of a class type descriptor. -/
def Descriptor.internalName (descriptor : String) : Except Error String := do
  match (← TypeDescriptor.parse descriptor).internalName? with
  | some name => return name
  | none => throw (.malformedDescriptor descriptor .notAnObject)

end Pseudonym
