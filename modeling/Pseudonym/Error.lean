/-!
# What can go wrong

Every failure concerns one class, one name or one line. An `Error` names the cause; `Error.message`
is its wording. Some failures only cost the class at hand (`Error.isRecoverable`), some say that
names were replaced twice (`Error.isIntegrityViolation`).
-/

namespace Pseudonym

/-- Why a descriptor or a generic signature is malformed. Offsets count bytes. -/
inductive DescriptorFault where
  /-- A type is missing at the end. -/
  | unexpectedEnd
  | arrayWithoutElement
  /-- No semicolon ends the object type that starts at the offset. -/
  | unterminatedObject (offset : Nat)
  | emptyName (offset : Nat)
  /-- A character that no name in a descriptor may hold. -/
  | illegalInName (found : Char)
  /-- A character that starts no type. -/
  | unexpected (found : Char) (offset : Nat)
  /-- Text behind the end of the type. -/
  | trailing (offset : Nat)
  /-- A method descriptor that does not open its parameter list. -/
  | noParameters
  /-- A method descriptor that does not close its parameter list. -/
  | unterminatedParameters
  /-- A type that should be an object type. -/
  | notAnObject
  | emptySignature
  /-- A type or an identifier is missing at the end of a signature. -/
  | unexpectedSignatureEnd
  /-- No `>` ends the type parameters. -/
  | unterminatedTypeParameters
  | emptyTypeParameter
  /-- No `>` ends the type arguments. -/
  | unterminatedTypeArguments
  | unterminatedClassType
  | emptyTypeVariable
  /-- A class type is followed by something else than its semicolon. -/
  | noSemicolon (found : Char) (offset : Nat)
  /-- A class type lacks its semicolon at the end of the signature. -/
  | noSemicolonAtEnd
  /-- A fault that someone else describes. -/
  | stated (details : String)
deriving DecidableEq, Repr

/-- Why a text is no token. -/
inductive TokenFault where
  | noOpening
  | noClosing
  /-- Two underscores that start no boundary. -/
  | brokenBoundary
  /-- An underscore without four hexadecimal digits. -/
  | badEscape
  /-- Escapes that spell half a surrogate pair. -/
  | unpairedSurrogate
  /-- A fault that someone else describes. -/
  | stated (details : String)
deriving DecidableEq, Repr

/-- Why two texts do not make markers. -/
inductive MarkerFault where
  /-- The opening marker is empty or holds a character that no token may hold. -/
  | badOpening (opening : String)
  /-- The closing marker is too short, does not start with the delimiter, or holds a character
  that no token may hold. -/
  | badClosing (closing : String)
  /-- One marker occurs in the other. -/
  | nested
  /-- A fault that someone else describes. -/
  | stated (details : String)
deriving DecidableEq, Repr

/-- Why a line of a mapping file is refused. -/
inductive LineFault where
  /-- The line holds a malformed descriptor. -/
  | descriptor (text : String) (fault : DescriptorFault)
  /-- A member is not written as owner, point and name. -/
  | notAMember (found : String)
  /-- The line has a number of columns that no entry has. -/
  | columns (found : Nat)
  /-- A fault that someone else describes. -/
  | stated (details : String)
deriving DecidableEq, Repr

/-- The causes of failure. -/
inductive Error where
  /-- A descriptor or signature could not be read. -/
  | malformedDescriptor (descriptor : String) (fault : DescriptorFault)
  /-- A text is not a well-formed token. -/
  | malformedToken (token : String) (fault : TokenFault)
  /-- A name that should become a token carries the markers already. -/
  | alreadyEncoded (name : String)
  /-- A class that should keep its name carries the opening marker. -/
  | alreadyRenamed (name : String)
  /-- A declaration that is referred to was not found. -/
  | unresolved (owner name : String)
  | unreadableClass (name : Option String) (details : String)
  | unwritableClass (name details : String)
  /-- A line of a mapping file could not be read. Lines count from one. -/
  | badMappingLine (line : Nat) (fault : LineFault)
  /-- Two classes get the same new name. -/
  | mappingConflict (name first second : String)
  /-- Markers were installed a second time. -/
  | markersInstalled
  /-- Two texts break the rules for markers. -/
  | invalidMarkers (fault : MarkerFault)
deriving DecidableEq, Repr

/-- The wording of a descriptor fault. -/
def DescriptorFault.message : DescriptorFault → String
  | unexpectedEnd => "unexpected end of descriptor"
  | arrayWithoutElement => "array type without element type"
  | unterminatedObject offset => s!"unterminated object type at offset {offset}"
  | emptyName offset => s!"empty class name at offset {offset}"
  | illegalInName found => s!"illegal character '{found}' in class name"
  | unexpected found offset => s!"unexpected character '{found}' at offset {offset}"
  | trailing offset => s!"unexpected trailing characters at offset {offset}"
  | noParameters => "method descriptor must start with '('"
  | unterminatedParameters => "missing ')' after parameters"
  | notAnObject => "expected an object type"
  | emptySignature => "empty signature"
  | unexpectedSignatureEnd => "unexpected end of signature"
  | unterminatedTypeParameters => "unterminated type parameters"
  | emptyTypeParameter => "empty type parameter name"
  | unterminatedTypeArguments => "unterminated type arguments"
  | unterminatedClassType => "unterminated class type"
  | emptyTypeVariable => "empty type variable"
  | noSemicolon found offset => s!"expected ';' but found '{found}' at offset {offset}"
  | noSemicolonAtEnd => "expected ';' at end of signature"
  | stated details => details

/-- The wording of a token fault. -/
def TokenFault.message : TokenFault → String
  | noOpening => "missing prefix marker"
  | noClosing => "missing suffix marker"
  | brokenBoundary => "incomplete package boundary"
  | badEscape => "truncated or invalid escape"
  | unpairedSurrogate => "unpaired surrogate escape"
  | stated details => details

/-- The wording of a marker fault. -/
def MarkerFault.message : MarkerFault → String
  | badOpening opening => s!"bad prefix '{opening}'"
  | badClosing closing => s!"bad suffix '{closing}'"
  | nested => "prefix and suffix must not contain each other"
  | stated details => details

/-- The wording of a malformed descriptor, wherever it stands. -/
def DescriptorFault.describe (fault : DescriptorFault) (descriptor : String) : String :=
  s!"malformed descriptor '{descriptor}': {fault.message}"

/-- The wording of a line fault. -/
def LineFault.message : LineFault → String
  | descriptor text fault => fault.describe text
  | notAMember found => s!"expected 'owner.name', found '{found}'"
  | columns found => s!"expected 2 or 3 columns, found {found}"
  | stated details => details

namespace Error

/-- The wording of an error. -/
def message : Error → String
  | malformedDescriptor descriptor fault => fault.describe descriptor
  | malformedToken token fault => s!"malformed encoded identifier '{token}': {fault.message}"
  | alreadyEncoded name => s!"identifier already encoded: '{name}'"
  | alreadyRenamed name => s!"class already transformed: '{name}'"
  | unresolved owner name => s!"unresolved reference to '{name}' in '{owner}'"
  | unreadableClass none details => s!"failed to decode class: {details}"
  | unreadableClass (some name) details => s!"failed to decode class '{name}': {details}"
  | unwritableClass name details => s!"failed to encode class '{name}': {details}"
  | badMappingLine line fault => s!"invalid mapping on line {line}: {fault.message}"
  | mappingConflict name first second =>
    s!"mapping conflict: '{first}' and '{second}' both map to '{name}'"
  | markersInstalled => "identifier markers are already initialized for this process"
  | invalidMarkers fault => s!"invalid markers: {fault.message}"

/-- Whether a batch skips the class at hand and goes on. -/
def isRecoverable : Error → Bool
  | malformedDescriptor .. | malformedToken .. | unresolved .. | unreadableClass ..
  | unwritableClass .. => true
  | _ => false

/-- Whether the error says that names were replaced twice. -/
def isIntegrityViolation : Error → Bool
  | alreadyEncoded .. | alreadyRenamed .. => true
  | _ => false

end Error

end Pseudonym
