import Xdbc.Schema
import Xdbc.Queue
import Xdbc.Wire
import Xdbc.EndMarkers
import Xdbc.Metrics
import Xdbc.Server.RuntimeEnv
import Xdbc.Server.Compressor
import Xdbc.Server.Deserializers
import Xdbc.Server.Rows
import Xdbc.Server.Readers
import Xdbc.Server.Stages
import Xdbc.Server.System
import Xdbc.Server.Rounds
import Xdbc.Server.Ownership
import Xdbc.Server.Batches
import Xdbc.Server.Values
import Xdbc.Server.Arrow
import Xdbc.Server.Shutdown
import Xdbc.Server.Markers
import Xdbc.Server.Tasks
import Xdbc.Server.Partitions
import Xdbc.Server.Reading
import Xdbc.Server.Lines
import Xdbc.Server.Progress
import Xdbc.Server.Delivery
import Xdbc.Server.Completion
import Xdbc.Server.Packing
import Xdbc.Server.LineCount
import Xdbc.Server.Shares
import Xdbc.Server.Pages
import Xdbc.Server.Files
import Xdbc.Server.Cells
import Xdbc.Server.CopyText
import Xdbc.Server.Capacity
import Xdbc.Server.Columns
import Xdbc.Server.Admission
import Xdbc.Server.ChReader
import Xdbc.Client.RuntimeEnv
import Xdbc.Client.Decompressor
import Xdbc.Client.Serializers
import Xdbc.Client.Stages
import Xdbc.Client.System
import Xdbc.Client.Ownership
import Xdbc.Client.Shutdown
import Xdbc.Client.Markers
import Xdbc.Client.Progress
import Xdbc.Client.Delivery
import Xdbc.Client.Rows
import Xdbc.Client.Lengths
import Xdbc.Client.Bounds
import Xdbc.Client.Received
import Xdbc.Client.Decompressed
import Xdbc.Client.PqFiles
import Xdbc.Client.PqSink
import Xdbc.Client.PqRows
import Xdbc.Client.Balance
import Xdbc.Client.TableText
import Xdbc.Client.Tester
import Xdbc.Client.Handout
import Xdbc.Client.Analytics
import Xdbc.Client.Storage
import Xdbc.Client.Completion
import Xdbc.RoundTrip
import Xdbc.Handshake.Protocol
import Xdbc.Handshake.Safety
import Xdbc.Handshake.Completion
import Xdbc.Bytes.Memory
import Xdbc.Bytes.Grid
import Xdbc.Bytes.Count
import Xdbc.Bytes.Text
import Xdbc.Bytes.Decimal
import Xdbc.Bytes.Frames
import Xdbc.Bytes.Records
import Xdbc.Bytes.Escape
import Xdbc.Bytes.Double
import Xdbc.Bytes.Codec
import Xdbc.Bytes.Sized
import Xdbc.Actors
import Xdbc.Pipeline.Machine
import Xdbc.Pipeline.Custody
import Xdbc.Pipeline.Handoff
import Xdbc.Pipeline.Signals
import Xdbc.Pipeline.Markers
import Xdbc.Pipeline.Tasks
import Xdbc.Pipeline.Jobs
import Xdbc.Pipeline.Progress
import Xdbc.Pipeline.Prefix
import Xdbc.Pipeline.Termination
import Xdbc.Pipeline.Ledger
import Xdbc.Pipeline.Solo
import Xdbc.Pipeline.Regroup
import Xdbc.Pipeline.Packing
import Xdbc.Pipeline.Monitor
import Xdbc.Pipeline.Crew
import Xdbc.Pipeline.Balance
import Xdbc.Pipeline.Relay
import Xdbc.Search.Ranking
import Xdbc.Search.Best
import Xdbc.Optimizer.Rates
import Xdbc.Optimizer.Heuristics
import Xdbc.Optimizer.PoolSize
import Xdbc.Optimizer.Bruteforce
