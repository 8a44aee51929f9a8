import Tactmon.Lib.Bytes
import Tactmon.Lib.Memory
import Tactmon.Lib.Conformance
import Tactmon.Io.Stream
import Tactmon.Io.MemoryStream
import Tactmon.Io.Conformance
import Tactmon.Crypto.Hash
import Tactmon.Lib.Inflate
import Tactmon.Lib.Resumable
import Tactmon.Tact.BLTE
import Tactmon.Tact.Frame
import Tactmon.Tact.Decode
import Tactmon.Tact.Archive
import Tactmon.Beast.BlockTable
import Tactmon.Beast.Refinement
import Tactmon.Beast.Chunking
import Tactmon.Net.Session
import Tactmon.Backend.ProductCache
import Tactmon.Lib.LowerBound
import Tactmon.Wow.Root
import Tactmon.Wow.Layout
import Tactmon.Wow.RoundTrip
import Tactmon.Detail.Tokenizer
import Tactmon.Lib.Text
import Tactmon.Net.Link
import Tactmon.Ribbit.Records
import Tactmon.Net.ProcessRequest
import Tactmon.Net.SessionIo
import Tactmon.Backend.Repository
import Tactmon.Backend.RibbitMonitor
import Tactmon.Tact.Resource
import Tactmon.Tact.Encoding
import Tactmon.Tact.Manifest
import Tactmon.Tact.Index
import Tactmon.Tact.IndexLookup
import Tactmon.Tact.BuildConfig
import Tactmon.Lib.Grouping
import Tactmon.Backend.Listener
import Tactmon.Backend.Publishing
import Tactmon.Backend.Monitor
import Tactmon.Backend.Survival
import Tactmon.Lib.Lexing
import Tactmon.Orm.Component
import Tactmon.Orm.Layout
import Tactmon.Orm.Neighbours
import Tactmon.Orm.Rendering
import Tactmon.Orm.Placeholders
import Tactmon.Frontend.Synchronization
import Tactmon.Wow.Pages
import Tactmon.Wow.Ordered
import Tactmon.Wow.NameLookup
import Tactmon.Ribbit.Commands
import Tactmon.Tact.Product
import Tactmon.Frontend.Tracking
import Tactmon.Io.Truncation
import Tactmon.Tact.Hostile
import Tactmon.Tact.DeclaredSizes
import Tactmon.Tact.Validity
import Tactmon.Beast.Places
import Tactmon.Beast.Nesting
import Tactmon.Net.Range
import Tactmon.Tact.IndexBounds
import Tactmon.Tact.TruncatedManifest
import Tactmon.Tact.InstallManifest
import Tactmon.Tact.ConfigLine
import Tactmon.Tact.BuildGrammar
import Tactmon.Tact.LineOrder
import Tactmon.Lib.Fields
import Tactmon.Detail.Splitting
import Tactmon.Ribbit.Grammar
import Tactmon.Tact.KeyParsing
import Tactmon.Lib.Swaps
import Tactmon.Io.Totality
import Tactmon.Io.Writing
import Tactmon.Io.Pipe
import Tactmon.Io.CursorBounds
import Tactmon.Backend.Lifetimes
import Tactmon.Backend.ConnectionPool
import Tactmon.Utility.Tuple
import Tactmon.Utility.TupleCat
import Tactmon.Tact.PageIndex
import Tactmon.Tact.InstallTags
import Tactmon.Crypto.Alignment
import Tactmon.Crypto.WordArrays
import Tactmon.Crypto.Mixing
import Tactmon.Wow.Published
import Tactmon.Ribbit.Envelope
import Tactmon.Beast.Progress
import Tactmon.Net.Delivery
import Tactmon.Frontend.Completion
import Tactmon.Frontend.Binding
import Tactmon.Tact.KeyObjects
import Tactmon.Tact.Caching
import Tactmon.Lib.Stateful
import Tactmon.Wow.Loading
import Tactmon.Wow.Reload
