import LayeredSettings.Expansion.Evaluation
import LayeredSettings.Host
import LayeredSettings.Loader
import LayeredSettings.Store.Lookup
import LayeredSettings.Store.Snapshot
import LayeredSettings.Proofs.Expansion.Evaluation
import LayeredSettings.Proofs.Expansion.Stack
import LayeredSettings.Proofs.Store.References
import LayeredSettings.Proofs.Settings
import LayeredSettings.Proofs.Store.Entries
import LayeredSettings.Proofs.Document.Grammar
import LayeredSettings.Proofs.Document.Reading
import LayeredSettings.Proofs.Token.Lexing
import LayeredSettings.Proofs.Document.Parsing
import LayeredSettings.Proofs.Store.RoundTrip
import LayeredSettings.Proofs.Store.Enumeration
import LayeredSettings.Proofs.Store.Composition
import LayeredSettings.Proofs.Token.Spelling
import LayeredSettings.Proofs.Token.Tiling
import LayeredSettings.Proofs.Document.Concatenation
import LayeredSettings.Proofs.Document.Blocks
import LayeredSettings.Proofs.Document.Strictness
import LayeredSettings.Proofs.Store.Relocation
import LayeredSettings.Proofs.Loading
import LayeredSettings.Proofs.Store.Snapshot
import LayeredSettings.Proofs.Files
import LayeredSettings.Proofs.Sources
import LayeredSettings.Proofs.Store.Saving
import LayeredSettings.Proofs.Store.Defaults
import LayeredSettings.Proofs.Store.Extensionality
import LayeredSettings.Proofs.Document.Beginnings
import LayeredSettings.Proofs.Document.Refusal
import LayeredSettings.Proofs.Expansion.Ceiling
import LayeredSettings.Proofs.Store.Resolution
import LayeredSettings.Proofs.Expansion.Concatenation
import LayeredSettings.Proofs.Expansion.Canonical
import LayeredSettings.Proofs.Token.Calls
import LayeredSettings.Proofs.Document.Positions
import LayeredSettings.Proofs.Token.Resumption
import LayeredSettings.Proofs.Store.Header
import LayeredSettings.Proofs.Token.Seam
import LayeredSettings.Proofs.Document.Segments
import LayeredSettings.Proofs.Token.Viable
import LayeredSettings.Proofs.Document.Delimited
import LayeredSettings.Proofs.Encoding
