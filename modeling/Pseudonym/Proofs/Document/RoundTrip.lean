import Pseudonym.Document
import Pseudonym.Proofs.Document.Class

/-!
# Reading a class document again

A class that was read from a document is written as a document that gives the class again,

    read bytes = .ok c  →  write c = .ok written  →  read written = .ok c,

if it holds no floating point constants and no annotation without values stands as the innermost of
`maxDepth` arrays and objects. Such an annotation can be read, because a document may leave its
values out, but what is written for it cannot: the empty list of values would be one level too deep.

The bytes do not come back. A document may be laid out in many ways, spell its texts with other
escapes, leave members out that have a default and hold members that nobody reads.
-/

namespace Pseudonym

open Document Json

theorem documentCodec_read_eq (layout : Layout) (bytes : ByteArray) :
    (documentCodec layout).read bytes =
      match Document.read? classFile bytes with
      | some c => .ok c
      | none => .error (.unreadableClass none "the text is no class document") := rfl

theorem documentCodec_read_eq_ok_iff {layout : Layout} {bytes : ByteArray} {c : ClassFile} :
    (documentCodec layout).read bytes = .ok c ↔
      ∃ v, Value.ofBytes? bytes = some v ∧ classFile ⟨maxDepth, false⟩ v = some c := by
  rw [← Option.bind_eq_some_iff, documentCodec_read_eq]
  show _ ↔ Document.read? classFile bytes = some c
  cases Document.read? classFile bytes with
  | none => simp
  | some found => simp

/-- A value that is laid out as a text is read as the class that the value stands for. -/
theorem documentCodec_read_render {layout : Layout} {v : Value} (written : v.IsWritten)
    {c : ClassFile} :
    (documentCodec layout).read (v.render layout).toUTF8 = .ok c ↔
      classFile ⟨maxDepth, false⟩ v = some c := by
  rw [documentCodec_read_eq_ok_iff, Value.ofBytes?_render written]
  simp

/-- The document that spells a value on one line. -/
def compact (v : Value) : ByteArray := (v.render none).toUTF8

theorem read_compact {v : Value} (written : v.IsWritten) {c : ClassFile}
    (read : classFile ⟨maxDepth, false⟩ v = some c) :
    (documentCodec none).read (compact v) = .ok c :=
  (documentCodec_read_render written).2 read

theorem write_compact (c : ClassFile) :
    (documentCodec none).write c = .ok (compact (ofClass c)) := rfl

/-- **A class that was read is written and read again**, unless an annotation without values stands
on the last level. -/
theorem document_round_trip (layout : Layout) {bytes : ByteArray} {c : ClassFile}
    (read : (documentCodec layout).read bytes = .ok c) (plain : c.floating = []) :
    ∃ written, (documentCodec layout).write c = .ok written ∧
      ((documentCodec layout).read written = .ok c ↔ maxDepth ∉ c.bareDepths) := by
  refine ⟨_, rfl, ?_⟩
  rw [documentCodec_read_render (isWritten_ofClass _)]
  constructor
  · intro reread bare
    rw [refuses_classFile c ⟨maxDepth, false⟩ bare] at reread
    cases reread
  · intro free
    -- The class was read at the outermost position, so what is written for it is sound there.
    obtain ⟨v, -, read⟩ := documentCodec_read_eq_ok_iff.1 read
    have sound := staysSound_classFile c _ v read (by decide) free
    exact rereads_classFile plain _ sound

/-- A document of annotations inside annotations. The innermost one says nothing about itself, the
others only what they hold. -/
def nestedAnnotations : Nat → Value
  | 0 => .record []
  | n + 1 =>
    .record [("values", .array [.array [.text "v", tag "annotation" (nestedAnnotations n)]])]

/-- The annotations of the document. -/
def nestedUses : Nat → AnnotationUse
  | 0 => ⟨"", false, []⟩
  | n + 1 => ⟨"", false, [("v", .nested (nestedUses n))]⟩

/-- A class document with nested annotations. -/
def nestedDocument (n : Nat) : Value := .record [("annotations", .array [nestedAnnotations n])]

theorem isWritten_nestedDocument (n : Nat) : (nestedDocument n).IsWritten := by
  have nested : (nestedAnnotations n).IsWritten := by
    induction n with
    | zero => simp [nestedAnnotations]
    | succ n ih => simpa [nestedAnnotations] using ih
  simpa [nestedDocument] using nested

/-- What a class document with nested annotations says. -/
def nestedClass (n : Nat) : ClassFile := { annotations := [nestedUses n] }

/-- With thirty annotations inside another one there is room for the values of the innermost. -/
theorem document_round_trip_nested :
    (documentCodec none).read ((nestedDocument 30).render none).toUTF8 = .ok (nestedClass 30) ∧
      (nestedClass 30).floating = [] ∧ maxDepth ∉ (nestedClass 30).bareDepths ∧
      ∃ written, (documentCodec none).write (nestedClass 30) = .ok written ∧
        (documentCodec none).read written = .ok (nestedClass 30) := by
  have read : (documentCodec none).read ((nestedDocument 30).render none).toUTF8 =
      .ok (nestedClass 30) :=
    (documentCodec_read_render (isWritten_nestedDocument 30)).2 (by decide +kernel)
  have plain : (nestedClass 30).floating = [] := by decide +kernel
  have free : maxDepth ∉ (nestedClass 30).bareDepths := by decide +kernel
  obtain ⟨written, write, reread⟩ := document_round_trip none read plain
  exact ⟨read, plain, free, written, write, reread.2 free⟩

/-- With one more the innermost annotation stands on the last level. The class is read, but what is
written for it is refused. -/
theorem nested_document_is_refused_again :
    (documentCodec none).read ((nestedDocument 31).render none).toUTF8 = .ok (nestedClass 31) ∧
      (nestedClass 31).floating = [] ∧
      ∃ written, (documentCodec none).write (nestedClass 31) = .ok written ∧
        (documentCodec none).read written ≠ .ok (nestedClass 31) := by
  have plain : (nestedClass 31).floating = [] := by decide +kernel
  refine ⟨(documentCodec_read_render (isWritten_nestedDocument 31)).2 (by decide +kernel), plain, _,
    rfl, ?_⟩
  rw [Ne, documentCodec_read_render (isWritten_ofClass _)]
  decide +kernel

end Pseudonym
