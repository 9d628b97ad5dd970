import Xdbc.Server.Deserializers
import Xdbc.Bytes.Records
import Xdbc.Pipeline.Machine

/-!
# The read threads

`readCSV`, `readPG` and `readPQ` as programs of the pipeline: they take partitions from the
partition queue, fill buffers from the free list and push them to the deserializers.

The partition queue holds the numbers of the partitions in descending order and one end marker for
each thread (`partitionQueue`). A partition is determined by its number; `startOff` and `endOff`
compute its bounds as `readData` does.
-/

namespace Xdbc.Server

open Bytes Pipeline

/-- The conversion to a 32-bit `int`. -/
def toInt32 (z : ℤ) : ℤ := Int.bmod z (2 ^ 32)

theorem toInt32_of_bounds {z : ℤ} (h_lo : -2 ^ 31 ≤ z) (h_hi : z < 2 ^ 31) : toInt32 z = z := by
  rw [toInt32, Int.bmod]
  norm_num at *
  split <;> omega

/-! ### Partitions -/

section Partition

variable (rowNum partNum last : ℤ)

/-- `partSize`: the quotient, rounded up. -/
def partSize : ℤ :=
  if 0 < rowNum.tmod partNum then rowNum.tdiv partNum + 1 else rowNum.tdiv partNum

/-- The first row of partition `i`. -/
def startOff (i : ℤ) : ℤ := toInt32 (i * partSize rowNum partNum)

/-- The row behind partition `i`; the last partition ends at `last`. -/
def endOff (i : ℤ) : ℤ :=
  if i = partNum - 1 then last else toInt32 ((i + 1) * partSize rowNum partNum)

end Partition

/-- The contents of the partition queue when the threads start. -/
def partitionQueue (parallelism : ℕ) : List ℤ :=
  ((List.range parallelism).reverse.map fun i : ℕ => (i : ℤ)) ++ List.replicate parallelism marker

/-- The number of the queue with the partitions. -/
abbrev partQueue : ℕ := 4

/-- `wc`: the number of newlines of the file. -/
def wc (file : List UInt8) : ℕ := file.count newline

/-! ### `CSVReader::readCSV` -/

/-- The local variables of `readCSV`. -/
structure CsvVars where
  curBid : ℤ
  /-- What is left of the stream. -/
  file : List UInt8
  currentLine : ℤ
  /-- The offset of `writePtr` in the payload. -/
  writePtr : ℕ
  sizeWritten : ℕ
  tuplesWritten : ℕ
  deriving DecidableEq

/-- The program points of `readCSV`. -/
inductive ReadCSV where
  | start
  | popPart (r : CsvVars)
  /-- A partition has been taken. -/
  | takePart (r : CsvVars) (part : ℤ)
  /-- The test of the second loop over the lines. -/
  | next (r : CsvVars) (part : ℤ)
  | flushPush (r : CsvVars) (part : ℤ) (line : List UInt8)
  | flushPop (r : CsvVars) (part : ℤ) (line : List UInt8)
  | copy (r : CsvVars) (part : ℤ) (line : List UInt8)
  | last (r : CsvVars)
  | lastPush (r : CsvVars)
  | done
  deriving DecidableEq

/-- Read up to `k` lines: how many were read, and what is left of the stream. -/
def skipLines : ℕ → List UInt8 → ℕ × List UInt8
  | 0, file => (0, file)
  | k + 1, file =>
    match getline file with
    | none => (0, file)
    | some (_, rest) => ((skipLines k rest).1 + 1, (skipLines k rest).2)

/-- What is left of a stream behind the lines that are skipped is not longer than it. -/
theorem length_skipLines (k : ℕ) (file : List UInt8) :
    (skipLines k file).2.length ≤ file.length := by
  induction k generalizing file with
  | zero => exact le_rfl
  | succ k ih =>
    simp only [skipLines]
    split
    · exact le_rfl
    · next text rest h_line => exact (ih rest).trans (length_of_getline h_line).le

/-- The loop that skips to the starting offset of a partition. -/
def CsvVars.skipTo (r : CsvVars) (start : ℤ) : CsvVars :=
  let s := skipLines (start - r.currentLine).toNat r.file
  { r with currentLine := r.currentLine + s.1, file := s.2 }

/-- The offsets of the partitions of the CSV file. -/
def csvRowNum (ext : External) : ℤ := toInt32 (wc ext.file)

def csvStartOff (env : RuntimeEnv) (ext : External) (i : ℤ) : ℤ :=
  startOff (csvRowNum ext) env.readParallelism i

def csvEndOff (env : RuntimeEnv) (ext : External) (i : ℤ) : ℤ :=
  endOff (csvRowNum ext) env.readParallelism (csvRowNum ext) i

section Programs

variable {σ : Type} (env : RuntimeEnv) (ext : External)

/-- Copy a line behind the lines already in the buffer. -/
def CsvVars.copyLine (r : CsvVars) (part : ℤ) (line : List UInt8) (m : Memory Buffer σ) :
    Memory Buffer σ × ReadCSV :=
  let b := m.pool r.curBid
  (m.write r.curBid { b with payload := put b.payload r.writePtr line },
    .next { r with
      writePtr := r.writePtr + line.length
      sizeWritten := r.sizeWritten + line.length
      tuplesWritten := r.tuplesWritten + 1
      currentLine := r.currentLine + 1 } part)

/-- Write the header of the current buffer. -/
def CsvVars.writeHeader (r : CsvVars) (m : Memory Buffer σ) : Memory Buffer σ :=
  m.write r.curBid { m.pool r.curBid with
    header := { totalSize := r.sizeWritten, totalTuples := r.tuplesWritten } }

/-- `CSVReader::readCSV`. -/
def readCSV (thr : ℕ) : ReadCSV → Op ReadCSV Buffer σ
  | .start =>
    if ext.fileOpens thr then
      .pop 0 fun b => .popPart ⟨b, ext.file, 0, 0, 0, 0⟩
    else .quit
  | .popPart r => .pop partQueue fun p => if p = marker then .last r else .takePart r p
  | .takePart r p => .work [] fun m => (m, .next (r.skipTo (csvStartOff env ext p)) p)
  | .next r p =>
    if r.currentLine < csvEndOff env ext p then
      match getline r.file with
      | none => .work [] fun m => (m, .popPart { r with currentLine := 0 })
      | some (text, rest) =>
        let line := text ++ [newline]
        let r := { r with file := rest }
        if sizeofHeader + r.writePtr + line.length > env.payloadSize then
          -- the buffer is full
          .work [r.curBid] fun m =>
            (r.writeHeader m, .flushPush { r with sizeWritten := 0, tuplesWritten := 0 } p line)
        else .work [r.curBid] (r.copyLine p line)
    else .work [] fun m => (m, .popPart { r with currentLine := 0 })
  | .flushPush r p line => .push 1 r.curBid (.flushPop r p line)
  | .flushPop r p line => .pop 0 fun b => .copy { r with curBid := b, writePtr := 0 } p line
  | .copy r p line => .work [r.curBid] (r.copyLine p line)
  | .last r => .work [r.curBid] fun m => (r.writeHeader m, .lastPush r)
  | .lastPush r => .push 1 r.curBid .done
  | .done => .leave

end Programs

/-! ### `PGReader::readPG` -/

/-- The local variables of `readPG`. -/
structure PgVars where
  curBid : ℤ
  writePtr : ℕ
  sizeWritten : ℕ
  tuplesPerBuffer : ℕ
  deriving DecidableEq

/-- The program points of `readPG`. -/
inductive ReadPG where
  | start
  | popPart (r : PgVars)
  /-- The loop over the rows the server still sends. -/
  | row (r : PgVars) (rows : List (List UInt8))
  | flushPush (r : PgVars) (row : List UInt8) (rows : List (List UInt8))
  | flushPop (r : PgVars) (row : List UInt8) (rows : List (List UInt8))
  | copy (r : PgVars) (row : List UInt8) (rows : List (List UInt8))
  | last (r : PgVars)
  | lastPush (r : PgVars)
  | done
  deriving DecidableEq

section Programs

variable {σ : Type} (env : RuntimeEnv) (ext : External)

/-- Copy a row behind the rows already in the buffer. -/
def PgVars.copyRow (r : PgVars) (row : List UInt8) (rows : List (List UInt8))
    (m : Memory Buffer σ) : Memory Buffer σ × ReadPG :=
  let b := m.pool r.curBid
  (m.write r.curBid { b with payload := put b.payload r.writePtr row },
    .row { r with
      writePtr := r.writePtr + row.length
      sizeWritten := r.sizeWritten + row.length
      tuplesPerBuffer := r.tuplesPerBuffer + 1 } rows)

/-- Write the header of the current buffer. -/
def PgVars.writeHeader (r : PgVars) (m : Memory Buffer σ) : Memory Buffer σ :=
  m.write r.curBid { m.pool r.curBid with
    header := { totalSize := r.sizeWritten, totalTuples := r.tuplesPerBuffer } }

/-- `PGReader::readPG`. -/
def readPG : ReadPG → Op ReadPG Buffer σ
  | .start => .pop 0 fun b => .popPart ⟨b, 0, 0, 0⟩
  | .popPart r => .pop partQueue fun p =>
    if p = marker then .last r
    else .row r (ext.copyData (startOff ext.maxCtId env.readParallelism p)
      (endOff ext.maxCtId env.readParallelism (2 ^ 32 - 1) p))
  | .row r [] => .work [] fun m => (m, .popPart r)
  | .row r (row :: rows) =>
    if row = [] then .work [] fun m => (m, .popPart r)
    else if sizeofHeader + r.writePtr + row.length > env.bufferSize * 1024 then
      .work [r.curBid] fun m => (r.writeHeader m, .flushPush { r with sizeWritten := 0 } row rows)
    else .work [r.curBid] (r.copyRow row rows)
  | .flushPush r row rows => .push 1 r.curBid (.flushPop r row rows)
  | .flushPop r row rows => .pop 0 fun b =>
    .copy { r with curBid := b, writePtr := 0, tuplesPerBuffer := 0 } row rows
  | .copy r row rows => .work [r.curBid] (r.copyRow row rows)
  | .last r => .work [r.curBid] fun m => (r.writeHeader m, .lastPush r)
  | .lastPush r => .push 1 r.curBid .done
  | .done => .leave

end Programs

/-! ### `PQReader::readPQ` -/

/-- The program points of `readPQ`. -/
inductive ReadPQ where
  | popPart
  /-- The loop over the file numbers of a partition. -/
  | file (part : ℤ) (partitionId : ℤ)
  | load (part : ℤ) (partitionId : ℤ) (contents : List UInt8) (writeBuff : ℤ)
  | push (part : ℤ) (partitionId : ℤ) (writeBuff : ℤ)
  | done
  /-- An exception has ended the thread. -/
  | thrown (writeBuff : Option ℤ)

section Programs

variable {σ : Type} (env : RuntimeEnv) (ext : External)

/-- The number of files, as `div` takes it. -/
def pqFileNum : ℤ := toInt32 ext.numFiles

def pqStartOff (i : ℤ) : ℤ := startOff (pqFileNum ext) env.readParallelism i

def pqEndOff (i : ℤ) : ℤ := endOff (pqFileNum ext) env.readParallelism ext.numFiles i

/-- `PQReader::readPQ`. -/
def readPQ : ReadPQ → Op ReadPQ Buffer σ
  | .popPart => .pop partQueue fun p =>
    if p = marker then .done else .file p (pqStartOff env ext p)
  | .file p i =>
    if i < pqEndOff env ext p then
      match ext.parquetFile i with
      | none => .work [] fun m => (m, .thrown none)
      | some contents => .pop 0 (.load p i contents)
    else .work [] fun m => (m, .popPart)
  | .load p i contents b => .work [b] fun m =>
    let head : Header := { intermediateFormat := 4, totalSize := contents.length }
    if contents.length > env.payloadSize then
      (m.write b { m.pool b with header := head }, .thrown (some b))
    else (m.write b ⟨head, put (m.pool b).payload 0 contents⟩, .push p i b)
  | .push p i b => .push 1 b (.file p (i + 1))
  | .done => .leave
  | .thrown b => .work [] fun m => (m, .thrown b)

end Programs

end Xdbc.Server
