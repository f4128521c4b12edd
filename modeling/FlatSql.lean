import FlatSql.Config.Basic
import FlatSql.Main
import FlatSql.Server
import FlatSql.Sql.Cursor
import FlatSql.Sql.Statement.Reader
import FlatSql.Store.Memory
import FlatSql.Proofs.Atomic
import FlatSql.Proofs.Store.Keeping
import FlatSql.Proofs.Table.KeyIndex
import FlatSql.Proofs.Table.Rows
import FlatSql.Proofs.Table.Invariant
import FlatSql.Proofs.Bytes.Reads
import FlatSql.Proofs.Bytes.Spelling
import FlatSql.Proofs.Table.RoundTrip
import FlatSql.Proofs.Table.Loaded
import FlatSql.Proofs.Table.Sizes
import FlatSql.Proofs.Table.Layout
import FlatSql.Proofs.Table.Calls
import FlatSql.Proofs.Catalog.RoundTrip
import FlatSql.Proofs.Text.Utf8
import FlatSql.Proofs.Catalog.Layout
import FlatSql.Proofs.Catalog.Saving
import FlatSql.Proofs.Catalog.Images
import FlatSql.Proofs.Catalog.Written
import FlatSql.Proofs.Catalog.Operations
import FlatSql.Proofs.Statement.Effect
import FlatSql.Proofs.Statement.Sound
import FlatSql.Proofs.Statement.Checks
import FlatSql.Proofs.Statement.Grammar
import FlatSql.Proofs.Statement.Steps
import FlatSql.Proofs.Session.Query
import FlatSql.Proofs.Session.Durable
import FlatSql.Proofs.Session.Commuting
import FlatSql.Proofs.Session.Serving
import FlatSql.Proofs.Catalog.Sizes
import FlatSql.Proofs.Session.Traceless
import FlatSql.Proofs.Catalog.Shorter
import FlatSql.Proofs.Table.Assignments
import FlatSql.Proofs.Session.Clauses
import FlatSql.Proofs.Statement.Constraints
import FlatSql.Proofs.Session.Constraints
import FlatSql.Proofs.Session.Savable
import FlatSql.Proofs.Reference.Basic
import FlatSql.Proofs.Reference.Selection
import FlatSql.Proofs.Reference.Changes
import FlatSql.Proofs.Reference.Refinement
import FlatSql.Proofs.Statement.Productions
import FlatSql.Proofs.Token.Munch
import FlatSql.Proofs.Token.Tiling
import FlatSql.Proofs.Statement.Exact
import FlatSql.Proofs.Catalog.Loading
import FlatSql.Proofs.Catalog.Keeping
import FlatSql.Proofs.Table.Updates
import FlatSql.Proofs.Table.Failures
import FlatSql.Proofs.Table.Insertion
import FlatSql.Proofs.Session.Insertion
import FlatSql.Proofs.Statement.Ends
import FlatSql.Proofs.Statement.Spaced
import FlatSql.Proofs.Statement.Faults
import FlatSql.Proofs.Table.Lookups
import FlatSql.Proofs.Token.Places
import FlatSql.Proofs.Token.Breaks
import FlatSql.Proofs.Statement.Symbolic
import FlatSql.Proofs.Statement.Rejoined
import FlatSql.Proofs.Statement.Literals
import FlatSql.Proofs.Session.Literals
import FlatSql.Proofs.Session.Comparisons
import FlatSql.Proofs.Session.Projection
import FlatSql.Proofs.ResultSet.Layout
import FlatSql.Proofs.Statement.Declarations
import FlatSql.Proofs.Session.Creation
import FlatSql.Proofs.Store.Ranges
import FlatSql.Proofs.Store.Interchange
import FlatSql.Proofs.Text.Basic
import FlatSql.Proofs.Config.Placeholder
import FlatSql.Proofs.Shell.Lines
import FlatSql.Proofs.Shell.Course
import FlatSql.Proofs.Bytes.Sequence
