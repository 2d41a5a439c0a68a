import Pseudonym.Renamer

/-!
# Calls of a renamer

A renamer can be called for one mention after the other, for handles and for constants. It remembers
whether any name was replaced so far. A call that fails may have replaced names before it did.
-/

namespace Pseudonym

/-- What a renamer is called for. -/
inductive Call where
  | mention (mention : Mention)
  | handle (handle : Handle)
  | constant (constant : Constant)
deriving DecidableEq

/-- What a call is given and what it returns. -/
inductive Call.Item where
  | text (text : String)
  | handle (handle : Handle)
  | constant (constant : Constant)
deriving DecidableEq

namespace Call

/-- What a call is given. -/
def given : Call → Item
  | .mention q => .text q.text
  | .handle h => .handle h
  | .constant c => .constant c

/-- Renames what a call is given. -/
def renameM {m : Type → Type} [Monad m] (f : Mention → m String) : Call → m Item
  | .mention q => .text <$> f q
  | .handle h => .handle <$> h.renameM f
  | .constant c => .constant <$> c.renameM f

end Call

/-- Answers calls one after the other, and says after each whether any name was replaced so far. -/
def Renamer.calls (r : Renamer) : (isModified : Bool) → List Call →
    List (Except Error Call.Item × Bool)
  | _, [] => []
  | isModified, k :: ks =>
    let traced := k.renameM r.rename
    let isModified := isModified || !traced.log.isEmpty
    (traced.outcome, isModified) :: r.calls isModified ks

end Pseudonym
