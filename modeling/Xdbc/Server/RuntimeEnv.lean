import Xdbc.Schema

/-!
# The server's configuration

`RuntimeEnv` holds the settings the server is started with, and the values its constructor and
`serve` derive from them: the tuple size, the number of tuples that fit a buffer, and the
capacities of the queues.
-/

namespace Xdbc.Server

/-- The general-purpose codecs, numbered as in the header. -/
inductive Codec where
  | zstd
  | snappy
  | lzo
  | lz4
  | zlib
  deriving DecidableEq, Repr

/-- `compression_algorithm`. A name the compressor does not know counts as `nocomp`. -/
inductive Compression where
  | nocomp
  | codec (c : Codec)
  | cols
  deriving DecidableEq, Repr

/-- The settings of the server. -/
structure RuntimeEnv where
  compressionAlgorithm : Compression
  iformat : ℕ
  /-- In KiB. -/
  bufferSize : ℕ
  buffersInBufferpool : ℕ
  readParallelism : ℕ
  deserParallelism : ℕ
  compressionParallelism : ℕ
  networkParallelism : ℕ
  skipDeserializer : Bool
  schema : List SchemaAttribute
  deriving Repr

namespace RuntimeEnv

variable (env : RuntimeEnv)

def tupleSize : ℕ := Xdbc.tupleSize env.schema

def tuplesPerBuffer : ℕ := Xdbc.tuplesPerBuffer env.bufferSize env.schema

def payloadSize : ℕ := Xdbc.payloadSize env.bufferSize env.schema

def totalWorkers : ℕ :=
  env.readParallelism + env.deserParallelism + env.compressionParallelism + env.networkParallelism

/-- `available_buffers_for_queues`, negative if there are fewer buffers than workers. -/
def availableBuffersForQueues : ℤ := env.buffersInBufferpool - env.totalWorkers

def queueCapacityPerComp : ℤ := env.availableBuffersForQueues.tdiv 4

def deserQueueCapacity : ℤ := env.queueCapacityPerComp + env.availableBuffersForQueues.tmod 4

end RuntimeEnv

end Xdbc.Server
