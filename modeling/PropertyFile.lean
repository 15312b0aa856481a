import PropertyFile.Command.Run
import PropertyFile.Expander.Description
import PropertyFile.Main
import PropertyFile.Proofs.Escape.Dangling
import PropertyFile.Proofs.Properties.RoundTrip
import PropertyFile.Proofs.Placeholder.Occurrence
import PropertyFile.Proofs.Expander.Agreement
import PropertyFile.Proofs.Dictionary.Merge
import PropertyFile.Proofs.LogicalLine.Layout
import PropertyFile.Proofs.LogicalLine.Text
import PropertyFile.Proofs.LogicalLine.Number
import PropertyFile.Proofs.Properties.Composition
import PropertyFile.Proofs.Escape.Token
import PropertyFile.Proofs.Properties.Rejection
import PropertyFile.Proofs.Properties.EmptyKey
import PropertyFile.Proofs.Text.Line
import PropertyFile.Proofs.RawEntry.Separator
import PropertyFile.Proofs.Properties.Layout
import PropertyFile.Proofs.Text.Utf16
import PropertyFile.Proofs.Escape.CodeUnit
import PropertyFile.Proofs.Properties.CodeUnits
import PropertyFile.Proofs.Properties.Continuation
import PropertyFile.Proofs.Expander.Independence
import PropertyFile.Proofs.Expander.Session
import PropertyFile.Proofs.Expander.Settling
import PropertyFile.Proofs.Traversal
import PropertyFile.Proofs.Definition.Grammar
import PropertyFile.Proofs.Overrides.Precedence
import PropertyFile.Proofs.FileTree.Writing
import PropertyFile.Proofs.Command.Loading
import PropertyFile.Proofs.Command.Listing
import PropertyFile.Proofs.Command.Check
import PropertyFile.Proofs.Command.Ending
import PropertyFile.Proofs.Command.NormalForm
import PropertyFile.Proofs.Command.OneValue
import PropertyFile.Proofs.Command.Given
import PropertyFile.Proofs.Command.Placement
import PropertyFile.Proofs.Dictionary.History
import PropertyFile.Proofs.Expander.Concatenation
import PropertyFile.Proofs.Json.Reader
import PropertyFile.Proofs.Json.RoundTrip
import PropertyFile.Proofs.Text.Word
import PropertyFile.Proofs.Escape.Spelling
import PropertyFile.Proofs.Escape.Checked
import PropertyFile.Proofs.LogicalLine.Cover
import PropertyFile.Proofs.Properties.Backslash
