import Xdbc.Server.Compressor
import Xdbc.Bytes.Decimal
import Xdbc.Bytes.Text

/-!
# Deserializing one row

A row arrives as text, its fields separated by a delimiter and the last one ended by a newline, and
leaves as cells of an output buffer in row or column format. `deserialize` is the deserializer of
one field, `cellAddress` the place of a cell, and `deserializeRow` the loop over the attributes.

What the server takes from outside is gathered in `External`: files and tables, the libraries, and
which socket writes fail.
-/

namespace Xdbc.Server

open Bytes

/-- What the server takes from outside. -/
structure External where
  /-- The CSV file. -/
  file : List UInt8 := []
  /-- The read thread can open the CSV file. -/
  fileOpens : ℕ → Bool := fun _ => true
  /-- `getMaxCtId`: the number of the last page of the table. -/
  maxCtId : ℤ := 0
  /-- The rows of `COPY` for the pages between two offsets, as text. -/
  copyData : ℤ → ℤ → List (List UInt8) := fun _ _ => []
  /-- The number of files in the directory of the table. -/
  numFiles : ℕ := 0
  /-- The Parquet file with a number, if it exists. -/
  parquetFile : ℤ → Option (List UInt8) := fun _ => none
  /-- The values of the rows of a Parquet file, `none` if it cannot be read. -/
  parquetRows : List UInt8 → Option (List (List (List UInt8))) := fun _ => none
  /-- The record batch made of rows given as text, `none` if it does not fit. -/
  arrowBatch : List (List UInt8) → Option (List UInt8) := fun _ => none
  /-- `fast_float::from_chars`. -/
  doubleFromChars : List UInt8 → Option UInt64 := fun _ => none
  /-- What an uninitialised `int value;` holds. -/
  staleInt : ℤ := 0
  /-- What an uninitialised `double value;` holds. -/
  staleDouble : UInt64 := 0
  codecs : Codecs
  /-- The write number `j` of send thread `i` fails. -/
  sendFails : ℕ → ℕ → Bool := fun _ _ => false

/-! ### Cells -/

/-- The memory of a `double`. -/
def doubleBytes (x : UInt64) : List UInt8 := leBytes 8 x.toNat

@[simp] theorem length_doubleBytes (x : UInt64) : (doubleBytes x).length = 8 := length_leBytes _ _

/-- `deserialize<T>(src, end, dest, attSize, len)` on the block `dst`. -/
def deserialize (ext : External) (tpe : AttrType) (src : List UInt8) (dst : List UInt8) (dest : ℕ)
    (attSize len : ℕ) : List UInt8 :=
  match tpe with
  | .int => put dst dest (int32Bytes ((fromChars (src.take len)).getD ext.staleInt))
  | .double => put dst dest (doubleBytes ((ext.doubleFromChars (src.take len)).getD ext.staleDouble))
  | .char => put dst dest (src.take 1)
  | .string => put (put dst dest (List.replicate attSize 0)) dest (src.take len)

/-- The differences between the data sources that deliver text. -/
structure TextSource where
  delimiter : UInt8
  delimiter_ne : delimiter ≠ newline
  /-- The size of a cell in column format. -/
  stride : SchemaAttribute → ℕ
  stride_le : ∀ a, a.width ≤ a.size → a.width ≤ stride a ∧ stride a ≤ a.size
  /-- The formats for which full buffers are pushed. -/
  flushes : ℕ → Bool
  /-- Format 3 builds record batches. -/
  arrow : Bool
  /-- `skip_deserializer` is honoured. -/
  skips : Bool

/-- `deserializeCSV`. -/
def csvText : TextSource where
  delimiter := 44
  delimiter_ne := by decide
  stride := SchemaAttribute.width
  stride_le _ h := ⟨le_rfl, h⟩
  flushes f := f = 1 ∨ f = 2
  arrow := true
  skips := true

/-- `deserializePG`. -/
def pgText : TextSource where
  delimiter := 124
  delimiter_ne := by decide
  stride := SchemaAttribute.size
  stride_le _ h := ⟨h, le_rfl⟩
  flushes _ := true
  arrow := false
  skips := false

/-- The offset of a cell in the payload. -/
def cellAddress (env : RuntimeEnv) (stride bufferTupleId bytesInTuple : ℕ) : ℕ :=
  if env.iformat = 1 then bufferTupleId * env.tupleSize + bytesInTuple
  else bytesInTuple * env.tuplesPerBuffer + bufferTupleId * stride

/-- The loop over the attributes of one row: the number of bytes read from `src` and the block
written, `none` where a delimiter is missing and the code reads on from a null pointer. -/
def deserializeRow (X : TextSource) (env : RuntimeEnv) (ext : External) (bufferTupleId : ℕ) :
    List SchemaAttribute → (src : List UInt8) → (bytesInTuple : ℕ) → (dst : List UInt8) →
    Option (ℕ × List UInt8)
  | [], _, _, dst => some (0, dst)
  | a :: schema, src, bytesInTuple, dst =>
    match strchr (if schema.isEmpty then newline else X.delimiter) src with
    | none => none
    | some len =>
      let dst := if env.iformat = 1 ∨ env.iformat = 2 then
          deserialize ext a.tpe src dst
            (cellAddress env (X.stride a) bufferTupleId bytesInTuple) a.size len
        else dst
      (deserializeRow X env ext bufferTupleId schema (src.drop (len + 1)) (bytesInTuple + a.size)
        dst).map fun r => (len + 1 + r.1, r.2)

@[simp] theorem length_deserialize (ext : External) (tpe : AttrType) (src dst : List UInt8)
    (dest attSize len : ℕ) : (deserialize ext tpe src dst dest attSize len).length = dst.length := by
  cases tpe <;> simp [deserialize]

theorem length_deserializeRow {X : TextSource} {env : RuntimeEnv} {ext : External} {k : ℕ}
    {schema : List SchemaAttribute} {src : List UInt8} {off : ℕ} {dst : List UInt8}
    {r : ℕ × List UInt8} (h : deserializeRow X env ext k schema src off dst = some r) :
    r.2.length = dst.length := by
  induction schema generalizing src off dst r with
  | nil => cases h; rfl
  | cons a schema ih =>
    simp only [deserializeRow] at h
    split at h
    · cases h
    · obtain ⟨r', h', rfl⟩ := Option.map_eq_some_iff.mp h
      rw [ih h']
      split <;> simp

/-- A row in text is not empty, and there is something to read it from. -/
theorem deserializeRow_pos {X : TextSource} {env : RuntimeEnv} {ext : External} {k off : ℕ}
    {schema : List SchemaAttribute} {src dst : List UInt8} {r : ℕ × List UInt8}
    (h_schema : schema ≠ []) (h : deserializeRow X env ext k schema src off dst = some r) :
    1 ≤ r.1 ∧ src ≠ [] := by
  cases schema with
  | nil => exact absurd rfl h_schema
  | cons a schema =>
    simp only [deserializeRow] at h
    split at h
    · cases h
    · next len h_len =>
      obtain ⟨r', -, rfl⟩ := Option.map_eq_some_iff.mp h
      refine ⟨by dsimp only; omega, ?_⟩
      rintro rfl
      cases h_len

/-- The write of one value of a Parquet file. A string is copied whole, whatever its length. -/
def writeParquetField (a : SchemaAttribute) (value dst : List UInt8) (dest : ℕ) : List UInt8 :=
  match a.tpe with
  | .string => put (put dst dest (List.replicate a.size 0)) dest value
  | .char => put dst dest [value.headD 0]
  | _ => put dst dest (value.take a.width)

/-- The loop of `deserializePQ` over the columns of one row. -/
def writeParquetRow (env : RuntimeEnv) (numRows : ℕ) :
    List SchemaAttribute → (row : List (List UInt8)) → (columnOffset : ℕ) → (dst : List UInt8) →
    List UInt8
  | a :: schema, value :: row, columnOffset, dst =>
    let dest := cellAddress env a.size numRows columnOffset
    let dst := if env.iformat = 1 ∨ env.iformat = 2 then writeParquetField a value dst dest else dst
    writeParquetRow env numRows schema row (columnOffset + a.width) dst
  | _, _, _, dst => dst

end Xdbc.Server
