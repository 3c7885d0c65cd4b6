import Cryptomeria.Bitstamp.Lob
import Cryptomeria.Bitstamp.OrderLevels
import Cryptomeria.Bitstamp.Orders
import Cryptomeria.Bitstamp.Persisted
import Cryptomeria.Bitstamp.Readings
import Cryptomeria.Bitstamp.Reconcile
import Cryptomeria.Bitstamp.Session
import Cryptomeria.Bitstamp.SnapshotStep
import Cryptomeria.Bitstamp.Steps
import Cryptomeria.Bitstamp.Types
import Cryptomeria.Bitstamp.Ws
import Cryptomeria.Client.Active
import Cryptomeria.Client.Backoff
import Cryptomeria.Client.BestDiff
import Cryptomeria.Client.Conn
import Cryptomeria.Client.Depth
import Cryptomeria.Client.DepthEntries
import Cryptomeria.Client.Endpoint
import Cryptomeria.Client.Journal
import Cryptomeria.Client.KrakenLevels
import Cryptomeria.Client.Ledger
import Cryptomeria.Client.MeasuredRows
import Cryptomeria.Client.Mirror
import Cryptomeria.Client.Outward
import Cryptomeria.Client.ParseErrors
import Cryptomeria.Client.Persist
import Cryptomeria.Client.Report
import Cryptomeria.Client.Restart
import Cryptomeria.Client.Run
import Cryptomeria.Client.Shared
import Cryptomeria.Client.Shutdown
import Cryptomeria.Client.Signals
import Cryptomeria.Client.Timestamps
import Cryptomeria.Client.TopGauges
import Cryptomeria.Client.Trades
import Cryptomeria.Client.Venue
import Cryptomeria.Client.World
import Cryptomeria.Client.Writes
import Cryptomeria.Db
import Cryptomeria.Exchange
import Cryptomeria.Filter.BestLevels
import Cryptomeria.Filter.Bound
import Cryptomeria.Filter.Removals
import Cryptomeria.Filter.Replacement
import Cryptomeria.Filter.SnapshotWindow
import Cryptomeria.Filter.Subset
import Cryptomeria.Filter.TopOfBook
import Cryptomeria.Filter.Window
import Cryptomeria.Json
import Cryptomeria.Kraken.Lob
import Cryptomeria.Kraken.Types
import Cryptomeria.Kraken.Ws
import Cryptomeria.Lib.Dict
import Cryptomeria.Lib.Grouping
import Cryptomeria.Lib.Selection
import Cryptomeria.Lib.Trace
import Cryptomeria.Lib.WriteLog
import Cryptomeria.Lob.Admission
import Cryptomeria.Lob.Agreement
import Cryptomeria.Lob.Book
import Cryptomeria.Lob.History
import Cryptomeria.Lob.Model
import Cryptomeria.Lob.Positive
import Cryptomeria.Lob.Process
import Cryptomeria.Lob.Snapshot
import Cryptomeria.Lob.Steps
import Cryptomeria.Main.Aliases
import Cryptomeria.Main.Alone
import Cryptomeria.Main.Columns
import Cryptomeria.Main.Grammar
import Cryptomeria.Main.Instruments
import Cryptomeria.Main.Midway
import Cryptomeria.Main.SharedTables
import Cryptomeria.Main.Spelling
import Cryptomeria.Main.Table
import Cryptomeria.Main.Tasks
import Cryptomeria.Main.Totals
import Cryptomeria.Migrate.Address
import Cryptomeria.Migrate.Migrator
import Cryptomeria.Migrate.Plan
import Cryptomeria.Migrate.Recorded
import Cryptomeria.Migrate.Resume
import Cryptomeria.Num.Decimal
import Cryptomeria.Num.F64
import Cryptomeria.Num.Text
import Cryptomeria.Okx.Lob
import Cryptomeria.Okx.Positions
import Cryptomeria.Okx.Types
import Cryptomeria.Okx.Ws
import Cryptomeria.Python.Lob
import Cryptomeria.Python.Pipeline
import Cryptomeria.Python.Rebuild
import Cryptomeria.Python.Replay
import Cryptomeria.Traits.LobFilter
import Cryptomeria.Traits.LobMetrics
import Cryptomeria.Filter.Conservative
import Cryptomeria.Main.LastPrice
import Cryptomeria.Bitstamp.Followed
import Cryptomeria.Lob.Redelivery
