import Xdbc.Client.Serializers
import Xdbc.Pipeline.Machine

/-!
# The receive, decompress, serialize and write threads

`XClient::receive`, `XClient::decompress`, `CsvSink::serialize` and `CsvSink::write` as programs of
the pipeline. Queue 1 is `compressedBufferIds`, queue 2 `decompressedBufferIds`, queue 3
`serializedBufferIds`.

In `CsvSink::serialize` the name `outBuffer` is a reference to the first output buffer of an
iteration. The assignment `outBuffer = (*bufferPool)[serializedBufferId]` after a flush does not
bind it anew: it copies the new buffer over the old one (`Ser.assign`), and the old one is what is
written from then on.
-/

namespace Xdbc.Client

open Bytes Pipeline

/-- What the write threads have written: for each thread the arguments of `outputFile.write`, with
the buffer they come from, in order. -/
abbrev Files : Type := ℕ → List (ℤ × List UInt8)

/-! ### `XClient::receive` -/

/-- The program points of `XClient::receive`; `ps` is what the socket still delivers. -/
inductive Receive where
  | start
  | popFree (ps : List Packet)
  /-- The header and the body are read. -/
  | readSocket (ps : List Packet) (bpi : ℤ)
  | push (ps : List Packet) (bpi : ℤ)
  /-- The loop is left with a buffer in hand. -/
  | done (bpi : ℤ)
  deriving DecidableEq

/-- `XClient::receive`. -/
def receive {σ : Type} (ext : External) (thr : ℕ) : Receive → Op Receive Buffer σ
  | .start =>
    if ext.connects thr then .pop 0 (.readSocket (ext.received thr)) else .quit
  | .popFree ps => .pop 0 (.readSocket ps)
  | .readSocket [] b => .work [b] fun m => (m, .done b)
  | .readSocket (p :: ps) b => .work [b] fun m =>
    (m.write b ⟨p.header, put (m.pool b).payload 0 (p.body.take p.header.totalSize)⟩,
      if p.body.length < p.header.totalSize then .done b else .push ps b)
  | .push ps b => .push 1 b (.popFree ps)
  | .done _ => .leave

/-! ### `XClient::decompress` -/

/-- The program points of `XClient::decompress`; `err` is `decompError`. -/
inductive Decomp where
  | popIn (err : ℤ)
  /-- The type of compression is read. -/
  | inspect (err : ℤ) (compBuffId : ℤ)
  | forward (err : ℤ) (compBuffId : ℤ)
  | popOut (err : ℤ) (compBuffId : ℤ)
  | decompress (err : ℤ) (compBuffId decompBuffId : ℤ)
  /-- Both buffers are returned after an error. -/
  | errorIn (err : ℤ) (compBuffId decompBuffId : ℤ)
  | errorOut (err : ℤ) (decompBuffId : ℤ)
  | pushOut (err : ℤ) (compBuffId decompBuffId : ℤ)
  | freeIn (err : ℤ) (compBuffId : ℤ)
  | done

/-- The header of a decompressed buffer. -/
def newHeader (header : Header) : Header where
  totalTuples := header.totalTuples
  totalSize := header.uncompressedSize
  intermediateFormat := header.intermediateFormat

/-- `XClient::decompress`. -/
def decompress {σ : Type} (env : RuntimeEnv) (ext : External) : Decomp → Op Decomp Buffer σ
  | .popIn e => .pop 1 fun b => if b = marker then .done else .inspect e b
  | .inspect e b => .work [b] fun m =>
    (m, if (m.pool b).header.compressionType = 0 then .forward e b else .popOut e b)
  | .forward e b => .push 2 b (.popIn e)
  | .popOut e b => .pop 0 (.decompress e b)
  | .decompress e b o => .work [b, o] fun m =>
    let header := (m.pool b).header
    -- for type 6 nothing is done, and the error code is the last one
    let r := if header.compressionType = 6 then (e, (m.pool o).payload)
      else decompressWith ext.decoders (m.pool o).payload (m.pool b).payload header.totalSize
        env.payloadSize (header.compressionType % 2 ^ 32)
    if r.1 = 1 then (m.write o { m.pool o with payload := r.2 }, .errorIn r.1 b o)
    else (m.write o ⟨newHeader header, r.2⟩, .pushOut r.1 b o)
  | .errorIn e b o => .push 0 b (.errorOut e o)
  | .errorOut e o => .push 0 o (.popIn e)
  | .pushOut e b o => .push 2 o (.freeIn e b)
  | .freeIn e b => .push 0 b (.popIn e)
  | .done => .leave

/-! ### `CsvSink::serialize` -/

/-- The local variables of `CsvSink::serialize` for a table. -/
structure SerVars where
  bufferId : ℤ
  /-- The buffer the reference `outBuffer` is bound to. -/
  outBuffer : ℤ
  serializedBufferId : ℤ
  totalTuples : ℕ
  /-- The cells of the record batch (format 3). -/
  cells : ℕ → ℕ → List UInt8
  i : ℕ
  totalSerializedBytes : ℕ

/-- The local variables of `CsvSink::serialize` for a Parquet file; `rows` is what is left of the
stream. -/
structure PqSerVars where
  bufferId : ℤ
  writeBuff : ℤ
  rows : List (List (List UInt8))
  numRows : ℕ
  totalSerializedBytes : ℕ

/-- The program points of `CsvSink::serialize`. -/
inductive Ser where
  | popIn
  | skipPush (bufferId : ℤ)
  /-- The header is read. -/
  | inspect (bufferId : ℤ)
  | popOut (bufferId : ℤ) (totalTuples : ℕ) (cells : ℕ → ℕ → List UInt8)
  /-- The test of the loop over the rows. -/
  | row (d : SerVars)
  | flushPush (d : SerVars)
  | flushPop (d : SerVars)
  /-- `outBuffer = (*bufferPool)[serializedBufferId]`. -/
  | assign (d : SerVars)
  /-- The row is written behind the flush. -/
  | emit (d : SerVars)
  | restPush (d : SerVars)
  | pqPopOut (bufferId : ℤ) (totalSize : ℕ)
  /-- The stream over the buffer is opened. -/
  | pqOpen (bufferId : ℤ) (totalSize : ℕ) (writeBuff : ℤ)
  | pqRow (d : PqSerVars)
  | pqFlushPush (d : PqSerVars)
  | pqFlushPop (d : PqSerVars)
  | pqRestPush (d : PqSerVars)
  /-- Nothing has been written to the output buffer, and it is forgotten. -/
  | forget (bufferId serializedBufferId : ℤ)
  | freeIn (bufferId : ℤ)
  | done
  /-- An exception has ended the thread. -/
  | thrown (bufferId : ℤ) (serializedBufferId : Option ℤ)

section Serialize

variable {σ : Type} (env : RuntimeEnv) (ext : External)

/-- Write the header of the output buffer. -/
def SerVars.writeHeader (d : SerVars) (m : Memory Buffer σ) : Memory Buffer σ :=
  m.write d.outBuffer { m.pool d.outBuffer with header := { totalSize := d.totalSerializedBytes } }

/-- Serialize row `i` behind the rows already written. -/
def SerVars.emitRow (d : SerVars) (m : Memory Buffer σ) : Memory Buffer σ × Ser :=
  let line := rowBytes env ext d.cells (m.pool d.bufferId).payload d.i
  let outB := m.pool d.outBuffer
  (m.write d.outBuffer { outB with payload := put outB.payload d.totalSerializedBytes line },
    .row { d with i := d.i + 1, totalSerializedBytes := d.totalSerializedBytes + line.length })

/-- Write the header of a buffer with rows of a Parquet file. -/
def PqSerVars.writeHeader (d : PqSerVars) (m : Memory Buffer σ) : Memory Buffer σ :=
  m.write d.writeBuff { m.pool d.writeBuff with
    header := { totalSize := d.totalSerializedBytes, totalTuples := d.numRows } }

/-- Serialize one row of a Parquet file, and write the header of a buffer that has become full. -/
def PqSerVars.emitRow (d : PqSerVars) (row : List (List UInt8)) (m : Memory Buffer σ) :
    Memory Buffer σ × Ser :=
  let line := serializeParquetRow ext env.schema row
  let outB := m.pool d.writeBuff
  let m := m.write d.writeBuff
    { outB with payload := put outB.payload d.totalSerializedBytes line }
  let d := { d with
    numRows := d.numRows + 1, totalSerializedBytes := d.totalSerializedBytes + line.length }
  if d.totalSerializedBytes + 1000 > env.bufferSizeInBytes then (d.writeHeader m, .pqFlushPush d)
  else (m, .pqRow d)

/-- The dispatch on the format in the header. -/
def inspectHeader (bufferId : ℤ) (b : Buffer) : Ser :=
  let format := b.header.intermediateFormat
  if format = 1 ∨ format = 2 ∨ format = 3 then
    if env.iformat = 3 then
      match ext.recordBatch b.data with
      | none => .thrown bufferId none
      | some cells => .popOut bufferId b.header.totalTuples cells
    else .popOut bufferId b.header.totalTuples fun _ _ => []
  else if format = 4 then .pqPopOut bufferId b.header.totalSize
  else .freeIn bufferId

/-- `CsvSink::serialize`. -/
def serialize : Ser → Op Ser Buffer σ
  | .popIn => .pop 2 fun b =>
    if b = marker then .done else if env.skipSerializer then .skipPush b else .inspect b
  | .skipPush b => .push 3 b .popIn
  | .inspect b => .work [b] fun m => (m, inspectHeader env ext b (m.pool b))
  | .popOut b n cells => .pop 0 fun o => .row ⟨b, o, o, n, cells, 0, 0⟩
  | .row d =>
    if d.i < d.totalTuples then
      if d.totalSerializedBytes + maxTupleSize env > env.bufferSizeInBytes then
        -- the buffer is full
        .work [d.outBuffer] fun m => (d.writeHeader m, .flushPush d)
      else .work [d.bufferId, d.outBuffer] (d.emitRow env ext)
    else if d.totalSerializedBytes > 0 then
      .work [d.outBuffer] fun m => (d.writeHeader m, .restPush d)
    else .work [] fun m => (m, .forget d.bufferId d.serializedBufferId)
  | .flushPush d => .push 3 d.serializedBufferId (.flushPop d)
  | .flushPop d => .pop 0 fun o => .assign { d with serializedBufferId := o }
  | .assign d => .work [d.outBuffer, d.serializedBufferId] fun m =>
    (m.write d.outBuffer (m.pool d.serializedBufferId), .emit { d with totalSerializedBytes := 0 })
  | .emit d => .work [d.bufferId, d.outBuffer] (d.emitRow env ext)
  | .restPush d => .push 3 d.serializedBufferId (.freeIn d.bufferId)
  | .pqPopOut b n => .pop 0 (.pqOpen b n)
  | .pqOpen b n o => .work [b] fun m =>
    match ext.parquetRows ((m.pool b).payload.take n) with
    | none => (m, .thrown b (some o))
    | some rows => (m, .pqRow ⟨b, o, rows, 0, 0⟩)
  | .pqRow d =>
    match d.rows with
    | row :: rows => .work [d.writeBuff] ({ d with rows := rows }.emitRow env ext row)
    | [] =>
      if d.totalSerializedBytes > 0 then
        .work [d.writeBuff] fun m => (d.writeHeader m, .pqRestPush d)
      else .work [] fun m => (m, .forget d.bufferId d.writeBuff)
  | .pqFlushPush d => .push 3 d.writeBuff (.pqFlushPop d)
  | .pqFlushPop d => .pop 0 fun o =>
    .pqRow { d with writeBuff := o, numRows := 0, totalSerializedBytes := 0 }
  | .pqRestPush d => .push 3 d.writeBuff (.freeIn d.bufferId)
  | .forget b _ => .push 0 b .popIn
  | .freeIn b => .push 0 b .popIn
  | .done => .leave
  | .thrown b o => .work [] fun m => (m, .thrown b o)

end Serialize

/-! ### `CsvSink::write` -/

/-- The program points of `CsvSink::write`. -/
inductive Write where
  | start
  | popIn
  | write (bufferId : ℤ)
  | free (bufferId : ℤ)
  | done
  /-- An exception has ended the thread. -/
  | thrown

/-- `CsvSink::write`. Nobody reads the counter of the write threads. -/
def write (ext : External) (thr : ℕ) : Write → Op Write Buffer Files
  | .start => .work [] fun m => (m, if ext.outputOpens thr then .popIn else .thrown)
  | .popIn => .pop 3 fun b => if b = marker then .done else .write b
  | .write b => .work [b] fun m =>
    ({ m with world := Function.update m.world thr (m.world thr ++ [(b, (m.pool b).data)]) },
      .free b)
  | .free b => .push 0 b .popIn
  | .done => .quit
  | .thrown => .work [] fun m => (m, .thrown)

end Xdbc.Client
