import Xdbc.Client.RuntimeEnv
import Xdbc.Client.Decompressor
import Xdbc.Bytes.Decimal
import Xdbc.Bytes.Text

/-!
# Serializing one row

A row of a table becomes a line of text. `serializeAttribute` is the serializer of one field,
`dataPtr` the memory it reads, and `serializeRow` the loop over the attributes.

What the client takes from outside is gathered in `External`: what arrives at the sockets, the
libraries, and which files can be opened.
-/

namespace Xdbc.Client

open Bytes

/-- A buffer as a socket delivers it. The connection has failed in a body that is shorter than the
header says. -/
structure Packet where
  header : Header
  body : List UInt8
  deriving DecidableEq

/-- What the client takes from outside. -/
structure External where
  /-- The receive thread can connect. -/
  connects : ℕ → Bool := fun _ => true
  /-- What the connection of a receive thread delivers before it ends. -/
  received : ℕ → List Packet := fun _ => []
  decoders : Decoders
  /-- What the uninitialised `decompError` holds. -/
  staleError : ℤ := 0
  /-- `sprintf("%.2f", x)`. -/
  formatDouble : UInt64 → List UInt8 := fun _ => []
  /-- The cells of a record batch by row and column, `none` if it cannot be read. -/
  recordBatch : List UInt8 → Option (ℕ → ℕ → List UInt8) := fun _ => none
  /-- The values of the rows of a Parquet file, `none` if it cannot be read. -/
  parquetRows : List UInt8 → Option (List (List (List UInt8))) := fun _ => none
  /-- What the uninitialised `dataPtr` points to. -/
  staleData : ℕ → ℕ → List UInt8 := fun _ _ => []
  /-- The write thread can open its file. -/
  outputOpens : ℕ → Bool := fun _ => true

/-- The delimiter between two fields. -/
def comma : UInt8 := 44

section Attribute

variable (ext : External)

/-- `SerializeAttribute<T>(data, buffer, len, delimiter)`: what is written to `buffer`. -/
def serializeAttribute (a : SchemaAttribute) (data : List UInt8) (delimiter : UInt8) :
    List UInt8 :=
  match a.tpe with
  | .int => printInt (int32OfBytes (data.take 4)) ++ [delimiter]
  | .double => ext.formatDouble (UInt64.ofNat (ofLeBytes (data.take 8))) ++ [delimiter]
  | .char => [data.headD 0, delimiter]
  | .string => data.take (strnlen data a.width) ++ [delimiter]

/-- `SerializeParquetAttribute<T>`. A `CHAR` is serialized as a string. -/
def serializeParquetAttribute (a : SchemaAttribute) (value : List UInt8) (delimiter : UInt8) :
    List UInt8 :=
  match a.tpe with
  | .int => printInt (int32OfBytes value) ++ [delimiter]
  | .double => ext.formatDouble (UInt64.ofNat (ofLeBytes value)) ++ [delimiter]
  | _ => value.take a.width ++ [delimiter]

/-- What a serialized attribute takes at most, in the estimate of the code. -/
def maxAttributeSize (a : SchemaAttribute) : ℕ :=
  match a.tpe with
  | .int => 12
  | .double => 24
  | .char => 2
  | .string => a.size + 1

/-- The delimiter behind an attribute with the given ones still to come. -/
def delimiterBefore (schema : List SchemaAttribute) : UInt8 :=
  if schema.isEmpty then newline else comma

end Attribute

section Row

variable (env : RuntimeEnv) (ext : External)

def maxTupleSize : ℕ := (env.schema.map maxAttributeSize).sum

def totalRowSize : ℕ := (env.schema.map SchemaAttribute.width).sum

/-- The memory from `dataPtr` on, for column `j` of row `i`. -/
def dataPtr (cells : ℕ → ℕ → List UInt8) (payload : List UInt8) (i j columnOffset columnStart : ℕ)
    (size : ℕ) : List UInt8 :=
  if env.iformat = 1 then payload.drop (i * totalRowSize env + columnOffset)
  else if env.iformat = 2 then payload.drop (columnStart + i * size)
  else if env.iformat = 3 then cells i j
  else ext.staleData i j

/-- The loop over the attributes of row `i`. -/
def serializeRow (cells : ℕ → ℕ → List UInt8) (payload : List UInt8) (i : ℕ) :
    List SchemaAttribute → (j columnOffset columnStart : ℕ) → List UInt8
  | [], _, _, _ => []
  | a :: schema, j, columnOffset, columnStart =>
    serializeAttribute ext a
        (dataPtr env ext cells payload i j columnOffset columnStart a.width)
        (delimiterBefore schema) ++
      serializeRow cells payload i schema (j + 1) (columnOffset + a.width)
        (columnStart + env.tuplesPerBuffer * a.width)

/-- The line of row `i`. -/
def rowBytes (cells : ℕ → ℕ → List UInt8) (payload : List UInt8) (i : ℕ) : List UInt8 :=
  serializeRow env ext cells payload i env.schema 0 0 0

/-- The lines of the first `k` rows. -/
def tableBytes (cells : ℕ → ℕ → List UInt8) (payload : List UInt8) (k : ℕ) : List UInt8 :=
  (List.range k).flatMap (rowBytes env ext cells payload)

/-- The loop over the columns of a row of a Parquet file. -/
def serializeParquetRow : List SchemaAttribute → List (List UInt8) → List UInt8
  | a :: schema, value :: row =>
    serializeParquetAttribute ext a value (delimiterBefore schema) ++ serializeParquetRow schema row
  | _, _ => []

variable {env ext}

theorem tableBytes_succ (cells : ℕ → ℕ → List UInt8) (payload : List UInt8) (k : ℕ) :
    tableBytes env ext cells payload (k + 1)
      = tableBytes env ext cells payload k ++ rowBytes env ext cells payload k := by
  rw [tableBytes, List.range_succ, List.flatMap_append, List.flatMap_singleton]
  rfl

end Row

end Xdbc.Client
