import LogServer.Lib.Transition
import LogServer.Lib.Raising
import LogServer.Lib.Datetime
import LogServer.Lib.Binary64
import LogServer.Lib.Csv
import LogServer.Lib.Regex
import LogServer.Lib.RegexContext
import LogServer.Lib.Substring
import LogServer.Text
import LogServer.Ipv4
import LogServer.Parser.Base
import LogServer.Parser.Patterns
import LogServer.Parser.MikroTik
import LogServer.Parser.Segments
import LogServer.Parser.Shapes
import LogServer.Parser.RoundTrip
import LogServer.Parser.FastPaths
import LogServer.Parser.Subscribers
import LogServer.Parser.Translations
import LogServer.Parser.Ranges
import LogServer.Parser.Truncation
import LogServer.Parser.Prefix
import LogServer.Queue.Msgpack
import LogServer.Database.ClickHouse
import LogServer.Database.Meta
import LogServer.Metrics
import LogServer.Services.Ingest
import LogServer.Services.Rows
import LogServer.Services.IngestRun
import LogServer.Services.Shedding
import LogServer.Lib.Framing
import LogServer.Services.SyslogTCP
import LogServer.Queue.RedisQueue
import LogServer.Services.Delivery
import LogServer.Services.Once
import LogServer.Api.Routers
import LogServer.Services.AllowList
import LogServer.Services.Recovery
import LogServer.Database.Archives
import LogServer.Lib.FileSystem
import LogServer.Services.Archive
import LogServer.Services.ArchiveSafety
import LogServer.Database.Settings
import LogServer.Services.Retention
import LogServer.MetricsFlush
import LogServer.Services.OctetCounting
import LogServer.Auth.Login
import LogServer.Database.Connection
import LogServer.Api.RouterCalls
import LogServer.Api.RouterTable
import LogServer.Services.AllowListHistory
import LogServer.Database.Search
import LogServer.Api.Paging
import LogServer.Api.SearchRequest
import LogServer.Api.ProtocolSearch
import LogServer.Services.ArchiveComplete
import LogServer.Services.Shutdown
import LogServer.Lib.Numerals
import LogServer.Lib.Calendar
import LogServer.Services.Prune
import LogServer.Services.BadEntries
import LogServer.Services.ArchiveFailure
import LogServer.Frontend.ExportCsv
import LogServer.Lib.History
import LogServer.Lib.Tally
import LogServer.Services.AllowListPast
import LogServer.Services.Effects
import LogServer.Services.ArrivalOrder
import LogServer.Services.Deployment
import LogServer.Services.Provenance
import LogServer.Services.Restart
import LogServer.Services.StoredOnce
import LogServer.MetricsShared
import LogServer.Auth.Passwords
import LogServer.Auth.Accounts
import LogServer.Api.Matching
import LogServer.Services.Retrieval
import LogServer.Parser.Grammar
import LogServer.Frontend.Console
import LogServer.Api.Branding
import LogServer.Config
