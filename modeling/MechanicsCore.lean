import MechanicsCore.Library.Machine
import MechanicsCore.Library.Slots
import MechanicsCore.Library.Exec
import MechanicsCore.Library.Outcome
import MechanicsCore.Library.OrdMap
import MechanicsCore.Library.Buckets
import MechanicsCore.Library.Text
import MechanicsCore.Library.Lines
import MechanicsCore.Library.Framing
import MechanicsCore.Library.Occurrences
import MechanicsCore.Library.FormUrlencoded
import MechanicsCore.Error
import MechanicsCore.Executor.Engine
import MechanicsCore.Executor.Queue
import MechanicsCore.Executor.Loop
import MechanicsCore.Executor.Conservation
import MechanicsCore.Executor.TimerDrain
import MechanicsCore.Executor.Steps
import MechanicsCore.Executor.InFlight
import MechanicsCore.Executor.Progress
import MechanicsCore.Executor.Service
import MechanicsCore.Executor.Overrun
import MechanicsCore.Runtime.RunSource
import MechanicsCore.Runtime.Idle
import MechanicsCore.Runtime.Settlement
import MechanicsCore.Runtime.Waiting
import MechanicsCore.Runtime.Reply
import MechanicsCore.Runtime.TimeLimit
import MechanicsCore.Pool.RestartGuard
import MechanicsCore.Pool.Lifecycle
import MechanicsCore.Pool.Ownership
import MechanicsCore.Pool.Shutdown
import MechanicsCore.Pool.Construction
import MechanicsCore.Pool.Teardown
import MechanicsCore.Pool.RestartControl
import MechanicsCore.Pool.Protocol
import MechanicsCore.Pool.ProtocolSafety
import MechanicsCore.Pool.Flow
import MechanicsCore.Pool.QueueOrder
import MechanicsCore.Pool.Metrics
import MechanicsCore.Pool.WaitFree
import MechanicsCore.Pool.Accounting
import MechanicsCore.Pool.Answers
import MechanicsCore.Pool.Serving
import MechanicsCore.Pool.WindDown
import MechanicsCore.Pool.Whole
import MechanicsCore.Pool.Supervision
import MechanicsCore.Pool.DropEnds
import MechanicsCore.Http.Transport
import MechanicsCore.Http.Execute
import MechanicsCore.Http.Deadline
import MechanicsCore.Http.Retries
import MechanicsCore.Http.ExposedHeaders
import MechanicsCore.Http.DefaultClient
import MechanicsCore.Http.Confinement
import MechanicsCore.Http.Builtin
import MechanicsCore.Builtins.Buffers
import MechanicsCore.Builtins.Codecs
import MechanicsCore.Url.SearchParams
import MechanicsCore.Url.SortOrder
import MechanicsCore.Url.FormRecord
import MechanicsCore.Mime.Message
import MechanicsCore.Mime.Encoding
import MechanicsCore.Mime.Compose
import MechanicsCore.Mime.Parse
import MechanicsCore.Mime.Format
import MechanicsCore.Mime.Generated
import MechanicsCore.Mime.BoundarySearch
import MechanicsCore.Mime.QuotedPrintable
import MechanicsCore.Mime.QpLines
import MechanicsCore.Mime.Codec
import MechanicsCore.Mime.Base64Lines
import MechanicsCore.Mime.Reader
import MechanicsCore.Mime.Frames
import MechanicsCore.Mime.RoundTrip
import MechanicsCore.Mime.HeaderList
import MechanicsCore.Mime.Cuts
import MechanicsCore.Mime.HeaderLines
import MechanicsCore.Mime.Rendered
import MechanicsCore.Mime.LineEndings
import MechanicsCore.Mime.LeafRoundTrip
import MechanicsCore.Mime.ReadBack
import MechanicsCore.Mime.Sections
import MechanicsCore.Mime.Freshness
import MechanicsCore.Mime.ContentType
import MechanicsCore.Mime.EncodedWords
import MechanicsCore.Mime.Folding
import MechanicsCore.Mime.Parsed
import MechanicsCore.Mime.Nesting
