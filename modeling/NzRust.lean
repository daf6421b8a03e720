import NzRust.Buffer.Bounded
import NzRust.Buffer.Queue
import NzRust.Buffer.View
import NzRust.Connection.Transaction
import NzRust.Driver.Cancel
import NzRust.Driver.Exclusive
import NzRust.Driver.Session
import NzRust.External.Policy
import NzRust.Handshake.Boundary
import NzRust.Handshake.Common
import NzRust.Handshake.Native
import NzRust.Handshake.Peers
import NzRust.Handshake.Sync
import NzRust.Handshake.Termination
import NzRust.Lib.FileTree
import NzRust.Lib.Soup
import NzRust.Pool.Async
import NzRust.Pool.Books
import NzRust.Response.Agreement
import NzRust.Response.Framing
import NzRust.Response.Native
import NzRust.Response.Orphan
import NzRust.Response.Resync
import NzRust.Response.Steps
import NzRust.Response.Sync
import NzRust.Sql.Agreement
import NzRust.Sql.Substitution
import NzRust.Types.Datetime
import NzRust.Types.RoundTrip
import NzRust.Types.Temporal
import NzRust.Lib.Checked
import NzRust.Types.Machine
import NzRust.Types.Numeric
import NzRust.Row.Dbos
import NzRust.Types.TextValue
import NzRust.Row.TextRow
import NzRust.Row.Lazy
import NzRust.Row.Total
import NzRust.Response.Sink
import NzRust.Response.Fragmentation
import NzRust.Row.TextLayout
import NzRust.Lib.Area
import NzRust.Row.Image
import NzRust.Row.Classified
import NzRust.Handshake.Exchange
import NzRust.Handshake.Agreement
import NzRust.Response.Freshness
import NzRust.Response.Abort
import NzRust.Pool.Sync
import NzRust.Response.Inner
import NzRust.Response.Retention
import NzRust.Sql.Evaluation
import NzRust.Sql.Numbered
import NzRust.Sql.ByteScan
import NzRust.Sql.Template
import NzRust.Response.Totals
import NzRust.Lib.Calendar
import NzRust.Types.Civil
import NzRust.Types.DateText
import NzRust.Types.SqlText
import NzRust.Types.ExactNumeric
import NzRust.Types.NumericWords
import NzRust.Lib.InPlace
import NzRust.Types.Reuse
import NzRust.Row.Reuse
import NzRust.Row.NumericReads
import NzRust.Client.Notices
import NzRust.Client.TemplateCache
import NzRust.Core.ErrorFields
import NzRust.Row.Descriptions
import NzRust.Sql.Named
import NzRust.Client.Render
import NzRust.External.Transfer
import NzRust.External.Exporting
import NzRust.Driver.Generations
import NzRust.Events.Calls
import NzRust.Events.Sender
import NzRust.Events.Permits
import NzRust.Events.Order
import NzRust.Events.Delivery
import NzRust.Events.Streams
import NzRust.Row.CellReads
import NzRust.Row.ReadAgreement
import NzRust.Sql.NumericScan
import NzRust.Lib.HashTable
import NzRust.Row.ColumnNames
import NzRust.Types.Formatting
import NzRust.Client.TextExport
import NzRust.Metadata.Identifiers
import NzRust.Lib.LastWrite
import NzRust.Connection.ConnectionString
import NzRust.Connection.Options
import NzRust.Connection.Credentials
import NzRust.Connection.OptionOrder
import NzRust.Sql.Fragments
import NzRust.Metadata.Catalog
import NzRust.Facade.Exclusive
import NzRust.Session.Aligned
import NzRust.Reader.Cursor
import NzRust.Session.Packets
import NzRust.Connection.Scopes
import NzRust.Pool.Leases
import NzRust.Lib.Gathering
import NzRust.Metadata.CatalogAnswers
import NzRust.Metadata.DdlAgreement
import NzRust.Metadata.DdlScripts
