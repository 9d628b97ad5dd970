import Xdbc.Client.Stages
import Xdbc.Pipeline.Custody

/-!
# The client

The threads of the client as a pipeline of four stages over the pool of buffers: receive,
decompress, serialize, write. `initial` is the state in which the threads start, with all ids in the
free list.
-/

namespace Xdbc.Client

open Bytes Pipeline

/-- The program points of the threads of each stage. -/
def Local : Fin 4 → Type
  | 0 => Receive
  | 1 => Decomp
  | 2 => Ser
  | 3 => Write

variable (env : RuntimeEnv) (ext : External)

/-- The number of threads of each stage. -/
def parallelism : ℕ → ℕ
  | 0 => env.rcvParallelism
  | 1 => env.decompParallelism
  | 2 => env.serParallelism
  | 3 => env.writeParallelism
  | _ => 0

/-- Thread `i` of stage `k`. -/
abbrev worker {env : RuntimeEnv} (k : Fin 4) (i : ℕ) (h : i < parallelism env k := by decide) :
    Tid 4 (parallelism env) := ⟨k, i, h⟩

/-- The capacities the constructor sets: the free list is unlimited. -/
def capacity : ℕ → ℕ
  | 1 => toSizeT env.queueCapacityPerComp
  | 2 => toSizeT env.queueCapacityPerComp
  | 3 => toSizeT env.serQueueCapacity
  | _ => 0

/-- The threads of the client. -/
def machine : Machine 4 Local Buffer Files where
  par := parallelism env
  cap := capacity env
  prog
    | ⟨0, i⟩ => receive ext i
    | ⟨1, _⟩ => decompress env ext
    | ⟨2, _⟩ => serialize env ext
    | ⟨3, i⟩ => write ext i

/-- Where the threads of each stage start. -/
def startPoint : (k : Fin 4) → Local k
  | 0 => Receive.start
  | 1 => Decomp.popIn ext.staleError
  | 2 => Ser.popIn
  | 3 => Write.start

/-- A buffer of the pool before its first use. -/
def emptyBuffer : Buffer := ⟨{}, List.replicate env.payloadSize 0⟩

/-- The payload of a buffer has the size the schema asks for. -/
def Full (b : Buffer) : Prop := b.payload.length = env.payloadSize

variable {env} in
theorem full_write {σ : Type} {m : Memory Buffer σ} (h : ∀ b, Full env (m.pool b)) (o : ℤ)
    {x : Buffer} (hx : Full env x) : ∀ b, Full env ((m.write o x).pool b) := by
  intro b
  rw [Memory.write_pool]
  split
  · exact hx
  · exact h b

/-- The ids of the pool. -/
def poolIds : List ℤ := firstIds env.buffersInBufferpool

/-- The queues when the threads start. -/
def initialQueue : ℕ → List ℤ
  | 0 => poolIds env
  | _ => []

/-- The state in which the threads start. -/
def initial : State (machine env ext) where
  queue := initialQueue env
  finished _ := 0
  mem := ⟨fun _ => emptyBuffer env, fun _ => []⟩
  thread t := .running (startPoint ext t.1)
  log := []

/-- A schedule of the client's threads that ends in a state satisfying a decidable test. -/
theorem exists_reachable (bad : (t : Tid 4 (parallelism env)) → Local t.1 → Prop)
    [h_dec : ∀ t l, Decidable (bad t l)] (s₀ : State (machine env ext))
    (ts : List (Tid 4 (parallelism env))) (p : State (machine env ext) → Prop) [DecidablePred p]
    (h : ((@execAll _ _ _ _ (machine env ext) bad h_dec s₀ ts).any
      fun s => decide (p s)) = true) :
    ∃ s, Reachable (machine env ext) bad s₀ s ∧ p s :=
  @exists_reachable_of_execAll _ _ _ _ (machine env ext) bad h_dec _ ts p _ h

/-! ### A small client -/

/-- One thread for each stage. -/
def smallEnv : RuntimeEnv where
  iformat := 1
  bufferSize := 1
  buffersInBufferpool := 8
  rcvParallelism := 1
  decompParallelism := 1
  serParallelism := 1
  writeParallelism := 1
  skipSerializer := false
  schema := [⟨.int, 4⟩]

/-- A buffer with one integer, compressed with `zstd`. -/
def zstdPacket : Packet where
  header := { compressionType := 1, totalSize := 13, totalTuples := 1, intermediateFormat := 1,
              uncompressedSize := 4 }
  body := [0x28, 0xb5, 0x2f, 0xfd, 0x20, 4, 33, 0, 0, 7, 0, 0, 0]

/-- The server sends `n` such buffers. -/
def zstdStream (n : ℕ) : External where
  received _ := List.replicate n zstdPacket
  decoders := storingDecoders

end Xdbc.Client
