import Pseudonym.Filter

/-!
# Handing classes to a decompiler

A decompiler asks for classes by the names they have outside and hands back text, about the class it
was given and about others. A `Handoff` answers it, and a `Sink` keeps the one text that was wanted:
the first one under the expected name.
-/

namespace Pseudonym

/-- Classes as they are seen through a chain of filters. -/
structure Handoff (m : Type → Type) [Monad m] where
  /-- Where classes are looked up. -/
  symbols : SymbolSource
  /-- The filters that the classes pass. -/
  chain : FilterChain m

/-- A place for one text. -/
structure Sink where
  /-- The name outside of the class that the text must be about. -/
  expected : String
  /-- The text, once there is one. -/
  content : Option String := none
deriving DecidableEq, Repr

namespace Sink

/-- A name with slashes for points. -/
def slashed (name : String) : String :=
  String.ofList (name.toList.map fun c => if c = '.' then '/' else c)

/-- Whether a text is offered under the expected name, which may be written with points. -/
def expects (s : Sink) (name : String) : Bool := slashed name == s.expected

/-- Offers a text about a class, and says whether it was kept. -/
def accept (s : Sink) (name text : String) : Bool × Sink :=
  if s.expects name && s.content.isNone then (true, { s with content := some text }) else (false, s)

end Sink

/-- A class name without a suffix that some decompilers append. -/
def withoutSuffix (name : String) : String :=
  match ['.', 'c', 'l', 'a', 's', 's'].isSuffixOf? name.toList with
  | some stem => String.ofList stem
  | none => name

namespace Handoff

variable {m : Type → Type} [Monad m] (h : Handoff m)

/-- The content of the class that is asked for by its name outside, if there is one. -/
def classBytes (requested : String) : ExceptT Error m (Option ByteArray) := do
  let name ← ExceptT.lift (h.chain.unapplyName h.symbols (withoutSuffix requested))
  match h.symbols.find? name with
  | none => return none
  | some info => some <$> h.chain.applyContent h.symbols info info.bytes

/-- The names outside of a class and of the classes inside it. -/
def entries (info : ClassInfo) : ExceptT Error m (List String) :=
  (info.name :: info.innerClasses).mapM (h.chain.applyName h.symbols)

/-- The names outside of all classes. -/
def libraryEntries : ExceptT Error m (List String) :=
  h.symbols.names.mapM (h.chain.applyName h.symbols)

/-- A place for the text about a class. -/
def sink (info : ClassInfo) : ExceptT Error m Sink :=
  (Sink.mk · none) <$> h.chain.applyName h.symbols info.name

/-- The text that was kept, with the names from inside. -/
def restore (s : Sink) : m (Option String) :=
  match s.content with
  | none => pure none
  | some text => do return some ((← h.chain.unapplyText h.symbols text).getD text)

end Handoff

end Pseudonym
