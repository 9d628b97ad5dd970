import Xdbc.Server.Stages
import Xdbc.Pipeline.Custody

/-!
# The server

The threads of the server as a pipeline of four stages over the pool of buffers: read, deserialize,
compress, send. The machine is given for each of the data sources `csv`, `postgres` and `parquet`;
compressing and sending are the same for all. `initial` is the state in which `serve` starts the
threads: all ids in the free list, all partitions queued.

The main thread starts the threads one after the other while the first ones already run. The
partition queue is filled before the first read thread starts, up to end markers, and a thread that
is started late is a thread that is scheduled late, so nothing is lost by starting all at once.
-/

namespace Xdbc.Server

open Bytes Pipeline

/-- The data sources. -/
inductive Source where
  | csv
  | postgres
  | parquet
  deriving DecidableEq, Repr

/-- The program points of the read threads. -/
def Reader : Source → Type
  | .csv => ReadCSV
  | .postgres => ReadPG
  | .parquet => ReadPQ

/-- The program points of the deserialization threads. -/
def Deserializer : Source → Type
  | .csv => Deser
  | .postgres => Deser
  | .parquet => DeserPQ

/-- The program points of the threads of each stage. -/
def Local (src : Source) : Fin 4 → Type
  | 0 => Reader src
  | 1 => Deserializer src
  | 2 => Comp
  | 3 => Send

variable (src : Source) (env : RuntimeEnv) (ext : External)

/-- The program of the read threads. -/
def read (thr : ℕ) : Reader src → Op (Reader src) Buffer Sockets :=
  match src with
  | .csv => readCSV env ext thr
  | .postgres => readPG env ext
  | .parquet => readPQ env ext

/-- The program of the deserialization threads. -/
def deserializer : Deserializer src → Op (Deserializer src) Buffer Sockets :=
  match src with
  | .csv => deserializeCSV env ext
  | .postgres => deserializePG env ext
  | .parquet => deserializePQ env ext

/-- The number of threads of each stage. -/
def parallelism : ℕ → ℕ
  | 0 => env.readParallelism
  | 1 => env.deserParallelism
  | 2 => env.compressionParallelism
  | 3 => env.networkParallelism
  | _ => 0

/-- Thread `i` of stage `k`. -/
abbrev worker {env : RuntimeEnv} (k : Fin 4) (i : ℕ) (h : i < parallelism env k := by decide) :
    Tid 4 (parallelism env) := ⟨k, i, h⟩

/-- The capacities the constructor sets: the free list and the partition queue are unlimited. -/
def capacity : ℕ → ℕ
  | 1 => toSizeT env.deserQueueCapacity
  | 2 => toSizeT env.queueCapacityPerComp
  | 3 => toSizeT env.queueCapacityPerComp
  | _ => 0

/-- The threads of the server. -/
def machine : Machine 4 (Local src) Buffer Sockets where
  par := parallelism env
  cap := capacity env
  prog
    | ⟨0, i⟩ => read src env ext i
    | ⟨1, _⟩ => deserializer src env ext
    | ⟨2, _⟩ => compress env ext
    | ⟨3, i⟩ => send ext i

/-- Where the threads of each stage start. -/
def startPoint : (k : Fin 4) → Local src k
  | 0 => match src with
    | .csv => ReadCSV.start
    | .postgres => ReadPG.start
    | .parquet => ReadPQ.popPart
  | 1 => match src with
    | .csv => Deser.start
    | .postgres => Deser.start
    | .parquet => DeserPQ.start
  | 2 => Comp.popIn
  | 3 => Send.popIn 0

/-- A buffer of the pool before its first use. -/
def emptyBuffer : Buffer := ⟨{}, List.replicate env.payloadSize 0⟩

/-- The payload of a buffer has the size the schema asks for. -/
def Full (b : Buffer) : Prop := b.payload.length = env.payloadSize

variable {env} in
theorem full_write {σ : Type} {m : Memory Buffer σ} (h : ∀ b, Full env (m.pool b)) (o : ℤ)
    {x : Buffer} (hx : Full env x) : ∀ b, Full env ((m.write o x).pool b) := by
  intro b
  rw [Memory.write_pool]
  split
  · exact hx
  · exact h b

/-- The ids of the pool. -/
def poolIds : List ℤ := firstIds env.buffersInBufferpool

/-- The queues when the threads start. -/
def initialQueue : ℕ → List ℤ
  | 0 => poolIds env
  | 4 => partitionQueue env.readParallelism
  | _ => []

/-- The state in which the threads start. -/
def initial : State (machine src env ext) where
  queue := initialQueue env
  finished _ := 0
  mem := ⟨fun _ => emptyBuffer env, fun _ => []⟩
  thread t := .running (startPoint src t.1)
  log := []

/-- A schedule of the server's threads that ends in a state satisfying a decidable test. -/
theorem exists_reachable (bad : (t : Tid 4 (parallelism env)) → Local src t.1 → Prop)
    [h_dec : ∀ t l, Decidable (bad t l)] (ts : List (Tid 4 (parallelism env)))
    (p : State (machine src env ext) → Prop) [DecidablePred p]
    (h : ((@execAll _ _ _ _ (machine src env ext) bad h_dec (initial src env ext) ts).any
      fun s => decide (p s)) = true) :
    ∃ s, Reachable (machine src env ext) bad (initial src env ext) s ∧ p s :=
  @exists_reachable_of_execAll _ _ _ _ (machine src env ext) bad h_dec _ ts p _ h

end Xdbc.Server
