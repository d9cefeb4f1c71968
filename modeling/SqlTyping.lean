import SqlTyping.Catalog.Rows
import SqlTyping.Proofs.Catalog.Closure
import SqlTyping.Proofs.Catalog.Rows
import SqlTyping.Proofs.Grouping.Extraction
import SqlTyping.Proofs.Json.Encoding
import SqlTyping.Proofs.Layout.Precedence
import SqlTyping.Proofs.Markers
import SqlTyping.Proofs.Nesting.Parsed
import SqlTyping.Proofs.Params.Merging
import SqlTyping.Proofs.Positional.Picks
import SqlTyping.Proofs.Printing.RoundTrip
import SqlTyping.Proofs.Resolution.Candidates
import SqlTyping.Proofs.Resolution.Coherence
import SqlTyping.Proofs.Resolution.ColumnLists
import SqlTyping.Proofs.Resolution.Inlining
import SqlTyping.Proofs.Resolution.OuterJoins
import SqlTyping.Proofs.Resolution.Recovery
import SqlTyping.Proofs.Session.Batch
import SqlTyping.Proofs.Session.History
import SqlTyping.Proofs.Spelling.Parsing
import SqlTyping.Proofs.Syntax.Cursor
import SqlTyping.Proofs.Tables.Extraction
import SqlTyping.Proofs.Types.Operators
import SqlTyping.Settings.Toml
import SqlTyping.Syntax.Codec
