import Pseudonym.Text.Blank
import Pseudonym.Text.Hex
import Pseudonym.Text.Utf16
import Pseudonym.Text.Utf8
import Pseudonym.Traced
import Pseudonym.Markers
import Pseudonym.Markers.Drawn
import Pseudonym.Markers.Seeded
import Pseudonym.Token
import Pseudonym.Token.Restore
import Pseudonym.Descriptor.Renaming
import Pseudonym.Signature.Renaming
import Pseudonym.Class.ClassFile
import Pseudonym.Class.Mention
import Pseudonym.Mapping
import Pseudonym.Mapping.Table
import Pseudonym.Mapping.Listing
import Pseudonym.Workspace
import Pseudonym.Additions
import Pseudonym.Mapping.Generated
import Pseudonym.Renamer
import Pseudonym.Calls
import Pseudonym.Class.Codec
import Pseudonym.Remap
import Pseudonym.Binary.Shortest
import Pseudonym.Json.Number
import Pseudonym.Json.Printer
import Pseudonym.Json.Reader
import Pseudonym.Document
import Pseudonym.Strip
import Pseudonym.Filter
import Pseudonym.Handoff
import Pseudonym.FileTree
import Pseudonym.Command.Arguments
import Pseudonym.Command.Run
import Pseudonym.Main
import Pseudonym.Proofs.Markers
import Pseudonym.Proofs.Outcome
import Pseudonym.Proofs.Text
import Pseudonym.Proofs.Token
import Pseudonym.Proofs.Restore
import Pseudonym.Proofs.Passage
import Pseudonym.Proofs.Asking
import Pseudonym.Proofs.Descriptor
import Pseudonym.Proofs.Descriptor.ReadBack
import Pseudonym.Proofs.Class.Mention
import Pseudonym.Proofs.Class.Walk
import Pseudonym.Proofs.Class.Texts
import Pseudonym.Proofs.Class.Undoing
import Pseudonym.Proofs.Class.Links
import Pseudonym.Proofs.Renamer
import Pseudonym.Proofs.Generated
import Pseudonym.Proofs.Reversal
import Pseudonym.Proofs.Linking
import Pseudonym.Proofs.Handoff
import Pseudonym.Proofs.Text.Order
import Pseudonym.Proofs.Mapping.Inverse
import Pseudonym.Proofs.Workspace
import Pseudonym.Proofs.Handoff.Table
import Pseudonym.Proofs.Reading
import Pseudonym.Proofs.Distinct
import Pseudonym.Proofs.CallSites
import Pseudonym.Proofs.Class.Namings
import Pseudonym.Proofs.ClassNames
import Pseudonym.Proofs.Signature
import Pseudonym.Proofs.Unmodified
import Pseudonym.Proofs.Signature.Mirror
import Pseudonym.Proofs.Signature.Name
import Pseudonym.Proofs.Signature.Reads
import Pseudonym.Proofs.Signature.Reread
import Pseudonym.Proofs.Class.Follows
import Pseudonym.Proofs.Failures
import Pseudonym.Proofs.Guarded
import Pseudonym.Proofs.SecondRenaming
import Pseudonym.Proofs.Json.Number
import Pseudonym.Proofs.Binary.Format
import Pseudonym.Proofs.Binary.Shortest
import Pseudonym.Proofs.Json.ReadBack
import Pseudonym.Proofs.Json.Floating
import Pseudonym.Proofs.Document.Decoder
import Pseudonym.Proofs.Document.Constant
import Pseudonym.Proofs.Document.Annotation
import Pseudonym.Proofs.Document.Instruction
import Pseudonym.Proofs.Document.Class
import Pseudonym.Proofs.Document.RoundTrip
import Pseudonym.Proofs.Document.Finite
import Pseudonym.Proofs.Document.Levels
import Pseudonym.Proofs.Document.Lasting
import Pseudonym.Proofs.Document.Rereading
import Pseudonym.Proofs.Chain
import Pseudonym.Proofs.FileTree.Path
import Pseudonym.Proofs.FileTree.Token
import Pseudonym.Proofs.FileTree.Reliable
import Pseudonym.Proofs.FileTree.InMemory
import Pseudonym.Proofs.Command.Running
import Pseudonym.Proofs.Command.Loading
import Pseudonym.Proofs.Command.Classes
import Pseudonym.Proofs.Command.Transform
import Pseudonym.Proofs.Signature.Image
import Pseudonym.Proofs.Signature.Suffix
import Pseudonym.Proofs.Descriptor.Offsets
import Pseudonym.Proofs.Signature.Restored
import Pseudonym.Proofs.Descriptor.Splice
import Pseudonym.Proofs.Descriptor.Renaming
import Pseudonym.Proofs.Class.Skeleton
import Pseudonym.Proofs.Signature.Descriptors
import Pseudonym.Proofs.Signature.Descent
import Pseudonym.Proofs.Signature.Automaton
import Pseudonym.Proofs.Signature.Acceptance
import Pseudonym.Proofs.Inherited
import Pseudonym.Proofs.Malformed
import Pseudonym.Proofs.Text.Words
import Pseudonym.Proofs.Mapping.Line
import Pseudonym.Proofs.Mapping.Table
import Pseudonym.Proofs.Mapping.Listing
import Pseudonym.Proofs.Components
import Pseudonym.Proofs.Nesting
import Pseudonym.Proofs.Text.Utf16
import Pseudonym.Proofs.Token.Slices
import Pseudonym.Proofs.Token.Grammar
import Pseudonym.Proofs.Token.Packages
import Pseudonym.Proofs.Restore.Tiling
import Pseudonym.Proofs.Restore.Complete
import Pseudonym.Proofs.Strip
import Pseudonym.Proofs.Commuting
import Pseudonym.Proofs.Slots
import Pseudonym.Proofs.Hooks
import Pseudonym.Proofs.Handoff.Tokens
import Pseudonym.Proofs.Handoff.Offers
import Pseudonym.Proofs.FileTree.Below
import Pseudonym.Proofs.Command.Keeping
import Pseudonym.Proofs.Command.Confined
