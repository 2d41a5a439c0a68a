import Pseudonym.Mapping.Generated
import Pseudonym.Mapping.Table
import Pseudonym.Remap
import Pseudonym.Strip
import Pseudonym.Token.Restore

/-!
# Filters

A filter changes classes before they leave the workspace: their names, their content or both. Names
can be changed back, and so can text that was written about the classes; content is never changed
back. A chain of filters goes forward in its order and backward in the reverse order, so that what
was done last is undone first.

A filter may have effects of its own, in any monad. The filters below have none and fit every monad.
-/

namespace Pseudonym

/-- A change to classes that leave the workspace. By default nothing is changed. -/
structure Filter (m : Type → Type) [Monad m] where
  /-- What the filter is called. -/
  id : String
  /-- The name of a class outside. -/
  filterName (symbols : SymbolSource) (name : String) : ExceptT Error m String := pure name
  /-- The name of a class inside, given its name outside. -/
  unfilterName (symbols : SymbolSource) (name : String) : m String := pure name
  /-- The content of a class outside. -/
  filterContent (symbols : SymbolSource) (info : ClassInfo) (bytes : ByteArray) :
    ExceptT Error m ByteArray := pure bytes
  /-- A text with the names from inside, or `none` where no name was found. -/
  unfilterText (symbols : SymbolSource) (text : String) : m (Option String) := pure none

/-- Filters in the order in which they are applied. -/
abbrev FilterChain (m : Type → Type) [Monad m] := List (Filter m)

namespace FilterChain

variable {m : Type → Type} [Monad m] (chain : FilterChain m) (symbols : SymbolSource)

/-- What the filters are called, in order. -/
def ids : List String := chain.map Filter.id

/-- The name of a class behind all filters. -/
def applyName (name : String) : ExceptT Error m String :=
  chain.foldlM (fun name f => f.filterName symbols name) name

/-- The name of a class in front of all filters. -/
def unapplyName (name : String) : m String :=
  chain.reverse.foldlM (fun name f => f.unfilterName symbols name) name

/-- The content of a class behind all filters. -/
def applyContent (info : ClassInfo) (bytes : ByteArray) : ExceptT Error m ByteArray :=
  chain.foldlM (fun bytes f => f.filterContent symbols info bytes) bytes

/-- A text with the names in front of all filters, or `none` where no filter found a name. -/
def unapplyText (text : String) : m (Option String) :=
  chain.reverse.foldlM
    (fun found f => do
      let next ← f.unfilterText symbols (found.getD text)
      return next.or found)
    none

end FilterChain

namespace Filter

variable {m : Type → Type} [Monad m]

/-- An outcome without effects. -/
def settle {α : Type} (outcome : Except Error α) : ExceptT Error m α := ExceptT.mk (pure outcome)

/-! ### Tokens -/

/-- The token of a primary class. Other classes keep their names. -/
def tokenOfClass (markers : Markers) (symbols : SymbolSource) (name : String) :
    Except Error String :=
  if symbols.isPrimary name then
    if markers.isEncoded name then .error (.alreadyRenamed name)
    else markers.encode name true
  else .ok name

/-- The primary class that a token stands for. Whatever stands for none is left alone. -/
def classOfToken (markers : Markers) (symbols : SymbolSource) (name : String) : String :=
  if markers.isEncoded name then
    match markers.decode name with
    | .ok decoded => if symbols.isPrimary decoded then decoded else name
    | .error _ => name
  else name

/-- Everything in a primary class renamed to tokens. -/
def tokenContent (markers : Markers) (reserved : List String) (codec : ClassCodec)
    (symbols : SymbolSource) (info : ClassInfo) (bytes : ByteArray) : Except Error ByteArray :=
  if symbols.isPrimary info.name then
    (Renamer.mk (.generated symbols markers reserved) (some symbols)).remapBytes codec bytes
  else .ok bytes

/-- Gives tokens to everything that primary classes declare. -/
def transparent (markers : Markers) (reserved : List String) (codec : ClassCodec) : Filter m where
  id := "transparent-mapping"
  filterName symbols name := settle (tokenOfClass markers symbols name)
  unfilterName symbols name := pure (classOfToken markers symbols name)
  filterContent symbols info bytes := settle (tokenContent markers reserved codec symbols info bytes)
  unfilterText _ text := pure (markers.restore? text)

/-! ### Tables -/

/-- Renames by a table, given its classes by their new names. -/
def ofInverse (table : MappingTable) (inverse : Std.ExtTreeMap String String)
    (codec : ClassCodec) : Filter m where
  id := "static-mapping"
  filterName _ name := pure (table.classes[name]?.getD name)
  unfilterName _ name := pure (inverse[name]?.getD name)
  filterContent symbols _ bytes :=
    settle ((Renamer.mk table.mapping (some symbols)).remapBytes codec bytes)

/-- Renames by a table. No two classes may get the same new name. -/
def table (table : MappingTable) (codec : ClassCodec) : Except Error (Filter m) := do
  return ofInverse table (← table.invertClasses) codec

/-! ### Debug data -/

/-- A class without debug data, from bytes to bytes. Where nothing is removed the bytes stay as they
are. -/
def strippedContent (config : StripConfig) (codec : ClassCodec) (bytes : ByteArray) :
    Except Error ByteArray := do
  let c ← codec.read bytes
  if config.touches c then codec.write (config.strip c) else return bytes

/-- Removes debug data. -/
def strip (config : StripConfig) (codec : ClassCodec) : Filter m where
  id := "debug-strip"
  filterContent _ _ bytes := settle (strippedContent config codec bytes)

end Filter

end Pseudonym
