import Cuttlefish.Utf8
import Cuttlefish.Table
import Cuttlefish.ScanRoot
import Cuttlefish.Record
import Cuttlefish.Index
import Cuttlefish.Identity
import Cuttlefish.Indexer
import Cuttlefish.Indexer.Rescan
import Cuttlefish.Indexer.Walk
import Cuttlefish.Indexer.Subtree
import Cuttlefish.Indexer.Parents
import Cuttlefish.GoPath
import Cuttlefish.Access
import Cuttlefish.ScanRoot.Roots
import Cuttlefish.ScanRoot.Clean
import Cuttlefish.Indexer.Grants
import Cuttlefish.Admin
import Cuttlefish.Admin.Template
import Cuttlefish.Admin.IdentityRules
import Cuttlefish.Serial
import Cuttlefish.Admin.History
import Cuttlefish.Accumulate
import Cuttlefish.Aggregator
import Cuttlefish.Sql.Like
import Cuttlefish.Sql.Syntax
import Cuttlefish.Sql.Eval
import Cuttlefish.Sql.Template
import Cuttlefish.Search
import Cuttlefish.Search.Scope
import Cuttlefish.Search.Meaning
import Cuttlefish.Search.Columns
import Cuttlefish.Search.Size
import Cuttlefish.Search.Query
import Cuttlefish.Search.Parameters
import Cuttlefish.Paging
import Cuttlefish.Handlers
import Cuttlefish.Handlers.Listing
import Cuttlefish.Handlers.Scanned
import Cuttlefish.Handlers.Stats
import Cuttlefish.Search.Results
import Cuttlefish.Search.Variants
import Cuttlefish.Search.Literal
import Cuttlefish.Handlers.Lists
import Cuttlefish.Search.Answers
import Cuttlefish.Handlers.Confined
import Cuttlefish.Handlers.Opened
import Cuttlefish.Search.Scanned
import Cuttlefish.Aggregator.Tables
import Cuttlefish.Aggregator.Snapshot
import Cuttlefish.Aggregator.Scanned
import Cuttlefish.DetailPanel
import Cuttlefish.Owners
import Cuttlefish.Run
import Cuttlefish.Calls
import Cuttlefish.FileBrowser
import Cuttlefish.FileBrowser.Granted
import Cuttlefish.Stack
import Cuttlefish.WindowedRows
import Cuttlefish.Rect
import Cuttlefish.Double
import Cuttlefish.Treemap
import Cuttlefish.Treemap.Rounded
import Cuttlefish.Treemap.View
import Cuttlefish.Csv
import Cuttlefish.IsoDate
import Cuttlefish.Js
import Cuttlefish.SearchPage.Columns
import Cuttlefish.SearchPage.Export
import Cuttlefish.SearchPage.SavedQuery
import Cuttlefish.SearchPage
import Cuttlefish.SearchPage.Contract
import Cuttlefish.ScanHistory
import Cuttlefish.ScanHistory.Register
import Cuttlefish.ScanHistory.Settled
import Cuttlefish.ScanHistory.Fresh
import Cuttlefish.ScanHistory.Apart
import Cuttlefish.TreeWalk
import Cuttlefish.Config
import Cuttlefish.Config.Common
import Cuttlefish.Config.Filled
import Cuttlefish.Config.Secrets
import Cuttlefish.Config.References
import Cuttlefish.Conninfo
import Cuttlefish.Config.ConnStr
import Cuttlefish.Login
import Cuttlefish.Slots
import Cuttlefish.Session
import Cuttlefish.Session.View
import Cuttlefish.Session.Move
import Cuttlefish.Session.Cancel
import Cuttlefish.SignIn
import Cuttlefish.SignIn.Safety
import Cuttlefish.Session.Groups
import Cuttlefish.Session.Roles
import Cuttlefish.Session.Recheck
import Cuttlefish.Session.Outcome
import Cuttlefish.Session.Tokens
