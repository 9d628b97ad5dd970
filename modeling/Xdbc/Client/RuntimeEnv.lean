import Xdbc.Schema

/-!
# The client's configuration

The settings the client is started with and what the sink derives from them. The capacities of the
queues are computed as the server does; only the odd buffers go to the last queue.
-/

namespace Xdbc.Client

/-- The settings of the client. -/
structure RuntimeEnv where
  iformat : ℕ
  /-- In KiB. -/
  bufferSize : ℕ
  buffersInBufferpool : ℕ
  rcvParallelism : ℕ
  decompParallelism : ℕ
  serParallelism : ℕ
  writeParallelism : ℕ
  skipSerializer : Bool
  schema : List SchemaAttribute
  deriving Repr

namespace RuntimeEnv

variable (env : RuntimeEnv)

def tupleSize : ℕ := Xdbc.tupleSize env.schema

def tuplesPerBuffer : ℕ := Xdbc.tuplesPerBuffer env.bufferSize env.schema

def payloadSize : ℕ := Xdbc.payloadSize env.bufferSize env.schema

/-- `bufferSizeInBytes`, which may be more than the payload. -/
def bufferSizeInBytes : ℕ := env.bufferSize * 1024

def totalWorkers : ℕ :=
  env.rcvParallelism + env.decompParallelism + env.serParallelism + env.writeParallelism

/-- `available_buffers_for_queues`, negative if there are fewer buffers than workers. -/
def availableBuffersForQueues : ℤ := env.buffersInBufferpool - env.totalWorkers

def queueCapacityPerComp : ℤ := env.availableBuffersForQueues.tdiv 4

def serQueueCapacity : ℤ := env.queueCapacityPerComp + env.availableBuffersForQueues.tmod 4

end RuntimeEnv

end Xdbc.Client
