import Pseudonym.Class.Codec
import Pseudonym.Document.Read
import Pseudonym.Document.Write

/-!
# Class documents as a codec

Reading refuses whatever is no class document; writing never fails.
-/

namespace Pseudonym

/-- The codec of class documents, which are written in the given layout. -/
def documentCodec (layout : Json.Layout) : ClassCodec where
  read bytes :=
    match Document.read? Document.classFile bytes with
    | some c => .ok c
    | none => .error (.unreadableClass none "the text is no class document")
  write c := .ok ((Document.ofClass c).render layout).toUTF8

end Pseudonym
