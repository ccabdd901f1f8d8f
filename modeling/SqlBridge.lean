import SqlBridge.Config.Text
import SqlBridge.Main
import SqlBridge.Storage.Scripted
import SqlBridge.Proofs.Session.Savepoint
import SqlBridge.Proofs.Session.Interrupted
import SqlBridge.Proofs.Grammar.Faithful
import SqlBridge.Proofs.Sql.Quoting
import SqlBridge.Proofs.Token.Tiling
import SqlBridge.Proofs.Catalog.Meaning
import SqlBridge.Proofs.Catalog.Effect
import SqlBridge.Proofs.Catalog.Agreement
import SqlBridge.Proofs.Catalog.IndexName
import SqlBridge.Proofs.Catalog.Numbered
import SqlBridge.Proofs.Catalog.Sound
import SqlBridge.Proofs.Catalog.Reachable
import SqlBridge.Proofs.Catalog.DeclaredIndex
import SqlBridge.Proofs.Grammar.Shape
import SqlBridge.Proofs.Grammar.Rows
import SqlBridge.Proofs.Grammar.Admission
import SqlBridge.Proofs.Grammar.Operation
import SqlBridge.Proofs.Grammar.Precedence
import SqlBridge.Proofs.Scribe.Operation
import SqlBridge.Proofs.Scribe.Precedence
import SqlBridge.Proofs.Scribe.TextLiteral
import SqlBridge.Proofs.Scribe.Union
import SqlBridge.Proofs.Scribe.Composed
import SqlBridge.Proofs.Catalog.AddedColumn
import SqlBridge.Proofs.Catalog.Cached
import SqlBridge.Proofs.Catalog.Owned
import SqlBridge.Proofs.Catalog.RevokedIndex
import SqlBridge.Proofs.Catalog.Spelling
import SqlBridge.Proofs.Plan.Limited
import SqlBridge.Proofs.Plan.Qualified
import SqlBridge.Proofs.Plan.Explained
import SqlBridge.Proofs.Plan.PrimaryKey
import SqlBridge.Proofs.Catalog.FixedText
import SqlBridge.Proofs.Session.Observed
import SqlBridge.Proofs.Scribe.DateShift
import SqlBridge.Proofs.Session.RenamedIndex
import SqlBridge.Proofs.Session.Shaped
import SqlBridge.Proofs.Session.Sightings
import SqlBridge.Proofs.Token.Quoted
import SqlBridge.Proofs.Catalog.Octets
import SqlBridge.Proofs.Scribe.DatePattern
import SqlBridge.Proofs.Sql.Opened
import SqlBridge.Proofs.Tree.Nearest
import SqlBridge.Proofs.Grammar.Progress
