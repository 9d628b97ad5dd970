import Xdbc.Server.Readers

/-!
# The deserialize, compress and send threads

`deserializeCSV`, `deserializePG`, `deserializePQ`, `Compressor::compress` and `XDBCServer::send` as
programs of the pipeline. A value that a local variable no longer names is not kept in the program
point; a thread that returns with a buffer still named keeps it in its last point.
-/

namespace Xdbc.Server

open Bytes Pipeline

/-- What the send threads have written to their sockets: for each thread the headers and payloads,
in order. -/
abbrev Sockets : Type := ℕ → List Buffer

/-! ### `deserializeCSV` and `deserializePG` -/

/-- The local variables of `deserializeCSV` and `deserializePG`. -/
structure DeserVars where
  outBid : ℤ
  inBid : ℤ
  readOffset : ℕ
  bufferTupleId : ℕ
  /-- The rows in the record batch builders (format 3). -/
  builders : List (List UInt8)
  deriving DecidableEq

/-- The program points of `deserializeCSV` and `deserializePG`. -/
inductive Deser where
  | start
  | skipPush (inBid : ℤ)
  | popIn (outBid : ℤ)
  /-- The test of the loop over the rows of a buffer. -/
  | row (d : DeserVars)
  | flushPush (d : DeserVars)
  | flushPop (d : DeserVars)
  | freeIn (d : DeserVars)
  | nextIn (d : DeserVars)
  /-- The remaining tuples. -/
  | rest (d : DeserVars)
  | restPush (d : DeserVars)
  /-- The loop is left, maybe with a buffer still named. -/
  | done (outBid : Option ℤ)
  /-- A null pointer has been followed or an exception thrown. -/
  | thrown (inBid : Option ℤ) (outBid : ℤ)
  deriving DecidableEq

section Text

variable {σ : Type} (X : TextSource) (env : RuntimeEnv) (ext : External)

/-- The header of a full output buffer. -/
def fullHeader (totalTuples : ℕ) : Header where
  totalTuples := totalTuples
  totalSize := totalTuples * env.tupleSize
  intermediateFormat := env.iformat

/-- The header of the last output buffer of a thread. -/
def restHeader (totalTuples : ℕ) : Header where
  totalTuples := totalTuples
  totalSize := if env.iformat = 2 then env.tuplesPerBuffer * env.tupleSize
    else totalTuples * env.tupleSize
  intermediateFormat := env.iformat

/-- The header of a record batch. -/
def batchHeader (totalTuples serializedSize : ℕ) : Header where
  totalTuples := totalTuples
  totalSize := serializedSize
  intermediateFormat := env.iformat

/-- One round of the loop over the rows of the input buffer. -/
def DeserVars.step (d : DeserVars) (m : Memory Buffer σ) : Memory Buffer σ × Deser :=
  let inB := m.pool d.inBid
  let outB := m.pool d.outBid
  if d.readOffset < inB.header.totalSize then
    let src := inB.payload.drop d.readOffset
    match deserializeRow X env ext d.bufferTupleId env.schema src 0 outB.payload with
    | none => (m, .thrown (some d.inBid) d.outBid)
    | some (len, payload) =>
      let bufferTupleId := d.bufferTupleId + 1
      let d := { d with readOffset := d.readOffset + len, bufferTupleId := bufferTupleId }
      if bufferTupleId = env.tuplesPerBuffer ∧ X.flushes env.iformat then
        (m.write d.outBid ⟨fullHeader env bufferTupleId, payload⟩,
          .flushPush { d with bufferTupleId := 0 })
      else if X.arrow ∧ env.iformat = 3 then
        let builders := d.builders ++ [src.take len]
        if bufferTupleId = toSizeT (env.tuplesPerBuffer - 1000) then
          match ext.arrowBatch builders with
          | none => (m, .thrown (some d.inBid) d.outBid)
          | some batch =>
            (m.write d.outBid ⟨batchHeader env bufferTupleId batch.length, put payload 0 batch⟩,
              .flushPush { d with bufferTupleId := 0, builders := [] })
        else (m, .row { d with builders := builders })
      else (m.write d.outBid { outB with payload := payload }, .row d)
  else (m, .freeIn d)

/-- The common code of `deserializeCSV` and `deserializePG`. -/
def deserializeText : Deser → Op Deser Buffer σ
  | .start =>
    if X.skips ∧ env.skipDeserializer then
      .pop 1 fun b => if b = marker then .done none else .skipPush b
    else .pop 0 .popIn
  | .skipPush b => .push 2 b .start
  -- the first id popped is not compared with the end marker
  | .popIn o => .pop 1 fun b => .row ⟨o, b, 0, 0, []⟩
  | .row d => .work [d.inBid, d.outBid] (d.step X env ext)
  | .flushPush d => .push 2 d.outBid (.flushPop d)
  | .flushPop d => .pop 0 fun o => .row { d with outBid := o }
  | .freeIn d => .push 0 d.inBid (.nextIn d)
  | .nextIn d => .pop 1 fun b =>
    if b = marker then .rest d else .row { d with inBid := b, readOffset := 0 }
  | .rest d =>
    if d.bufferTupleId > 0 ∧ d.bufferTupleId ≠ env.tuplesPerBuffer ∧ X.flushes env.iformat then
      .work [d.outBid] fun m =>
        (m.write d.outBid { m.pool d.outBid with header := restHeader env d.bufferTupleId },
          .restPush d)
    else if d.bufferTupleId > 0 ∧ d.bufferTupleId ≠ env.tuplesPerBuffer ∧
        X.arrow ∧ env.iformat = 3 then
      .work [d.outBid] fun m =>
        match ext.arrowBatch d.builders with
        | none => (m, .thrown none d.outBid)
        | some batch =>
          (m.write d.outBid ⟨batchHeader env d.bufferTupleId batch.length,
            put (m.pool d.outBid).payload 0 batch⟩, .restPush d)
    else .work [] fun m => (m, .done (some d.outBid))
  | .restPush d => .push 2 d.outBid (.done none)
  | .done _ => .leave
  | .thrown i o => .work [] fun m => (m, .thrown i o)

/-- `CSVReader::deserializeCSV`. -/
def deserializeCSV : Deser → Op Deser Buffer σ := deserializeText csvText env ext

/-- `PGReader::deserializePG`. -/
def deserializePG : Deser → Op Deser Buffer σ := deserializeText pgText env ext

end Text

/-! ### `deserializePQ` -/

/-- The local variables of `deserializePQ`; `rows` is what is left of the stream. -/
structure PqVars where
  deserBuff : ℤ
  writeBuff : ℤ
  numRows : ℕ
  rows : List (List (List UInt8))

/-- The program points of `deserializePQ`. -/
inductive DeserPQ where
  | start
  | skipPush (inBid : ℤ)
  | popOut (deserBuff : ℤ)
  /-- The stream over the buffer is opened. -/
  | openStream (d : PqVars)
  | row (d : PqVars)
  | flushPush (d : PqVars)
  | flushPop (d : PqVars)
  | freeIn (d : PqVars)
  | nextIn (d : PqVars)
  | rest (d : PqVars)
  | restPush (d : PqVars)
  | done (writeBuff : Option ℤ)
  | thrown (deserBuff writeBuff : ℤ)

section Parquet

variable {σ : Type} (env : RuntimeEnv) (ext : External)

/-- `PQReader::deserializePQ`. -/
def deserializePQ : DeserPQ → Op DeserPQ Buffer σ
  | .start =>
    if env.skipDeserializer then
      .pop 1 fun b => if b = marker then .done none else .skipPush b
    -- the first id popped is not compared with the end marker
    else .pop 1 .popOut
  | .skipPush b => .push 2 b .start
  | .popOut b => .pop 0 fun o => .openStream ⟨b, o, 0, []⟩
  | .openStream d => .work [d.deserBuff] fun m =>
    match ext.parquetRows (m.pool d.deserBuff).data with
    | none => (m, .thrown d.deserBuff d.writeBuff)
    | some rows => (m, .row { d with rows := rows })
  | .row d =>
    match d.rows with
    | [] => .work [] fun m => (m, .freeIn d)
    | row :: rows => .work [d.writeBuff] fun m =>
      let outB := m.pool d.writeBuff
      let payload := writeParquetRow env d.numRows env.schema row 0 outB.payload
      let numRows := d.numRows + 1
      let d := { d with rows := rows, numRows := numRows }
      if numRows = env.tuplesPerBuffer then
        (m.write d.writeBuff ⟨fullHeader env numRows, payload⟩, .flushPush { d with numRows := 0 })
      else (m.write d.writeBuff { outB with payload := payload }, .row d)
  | .flushPush d => .push 2 d.writeBuff (.flushPop d)
  | .flushPop d => .pop 0 fun o => .row { d with writeBuff := o }
  | .freeIn d => .push 0 d.deserBuff (.nextIn d)
  | .nextIn d => .pop 1 fun b =>
    if b = marker then .rest d else .openStream { d with deserBuff := b }
  | .rest d =>
    if d.numRows > 0 then
      .work [d.writeBuff] fun m =>
        (m.write d.writeBuff { m.pool d.writeBuff with header := restHeader env d.numRows },
          .restPush d)
    else .work [] fun m => (m, .done (some d.writeBuff))
  | .restPush d => .push 2 d.writeBuff (.done none)
  | .done _ => .leave
  | .thrown i o => .work [] fun m => (m, .thrown i o)

end Parquet

/-! ### `Compressor::compress` -/

/-- The program points of `Compressor::compress`. -/
inductive Comp where
  | popIn
  | forward (inBid : ℤ)
  | popOut (inBid : ℤ)
  | compress (inBid outBid : ℤ)
  /-- The codec was not successful: the input buffer is sent. -/
  | pushIn (inBid outBid : ℤ)
  | freeOut (outBid : ℤ)
  | pushOut (inBid outBid : ℤ)
  | freeIn (inBid : ℤ)
  | done

/-- `Compressor::compress`. -/
def compress {σ : Type} (env : RuntimeEnv) (ext : External) : Comp → Op Comp Buffer σ
  | .popIn => .pop 2 fun b =>
    if b = marker then .done
    else if getCompId env.compressionAlgorithm = 0 then .forward b else .popOut b
  | .forward b => .push 3 b .popIn
  | .popOut b => .pop 0 fun o => .compress b o
  | .compress b o => .work [b, o] fun m =>
    let r := compressInto env ext.codecs (m.pool b) (m.pool o)
    ((m.write b r.inBuffer).write o r.outBuffer,
      if r.compId = 0 then .pushIn b o else .pushOut b o)
  | .pushIn b o => .push 3 b (.freeOut o)
  | .freeOut o => .push 0 o .popIn
  | .pushOut b o => .push 3 o (.freeIn b)
  | .freeIn b => .push 0 b .popIn
  | .done => .leave

/-! ### `XDBCServer::send` -/

/-- The program points of `XDBCServer::send`; `sent` is the number of buffers sent so far. -/
inductive Send where
  | popIn (sent : ℕ)
  | write (sent : ℕ) (bufferId : ℤ)
  | free (sent : ℕ) (bufferId : ℤ)
  | done
  /-- The socket has failed. -/
  | boostError (bufferId : ℤ)

/-- `XDBCServer::send`. A send thread does not report that it has finished. -/
def send (ext : External) (thr : ℕ) : Send → Op Send Buffer Sockets
  | .popIn j => .pop 3 fun b => if b = marker then .done else .write j b
  | .write j b =>
    if ext.sendFails thr j then .work [b] fun m => (m, .boostError b)
    else .work [b] fun m =>
      let sent : Buffer := ⟨(m.pool b).header, (m.pool b).data⟩
      ({ m with world := Function.update m.world thr (m.world thr ++ [sent]) }, .free (j + 1) b)
  | .free j b => .push 0 b (.popIn j)
  | .done => .quit
  | .boostError _ => .quit

end Xdbc.Server
