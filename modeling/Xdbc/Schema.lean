import Mathlib

/-!
# Schemas, headers and buffers

The data that server and client share. A buffer of the pool is one block of memory: a `Header`
followed by the payload. Every function of the program reads and writes the header as a whole
record and the payload behind it, so a `Buffer` keeps the two apart. The header fields `crc` and
`attributeComp` are never read or written and are left out, as is the name of an attribute.
-/

namespace Xdbc

/-- Both programs have four stages, which are numbered by the literals of `Fin 4`. -/
instance neZeroStages : NeZero 4 := ⟨four_ne_zero⟩

/-- The type of an attribute, by the first letter of `tpe`. -/
inductive AttrType where
  | int
  | double
  | char
  | string
  deriving DecidableEq, Repr

/-- A column of the table. -/
structure SchemaAttribute where
  tpe : AttrType
  size : ℕ
  deriving DecidableEq, Repr

/-- The entry of `sizes` for the attribute, the same on both sides. -/
def SchemaAttribute.width (a : SchemaAttribute) : ℕ :=
  match a.tpe with
  | .int => 4
  | .double => 8
  | .char => 1
  | .string => a.size

/-- The declared size is the one the code hard-wires; strings may have any size. -/
def SchemaAttribute.Canonical (a : SchemaAttribute) : Prop := a.size = a.width ∧ 0 < a.size

instance (a : SchemaAttribute) : Decidable a.Canonical := by
  unfold SchemaAttribute.Canonical; infer_instance

/-- The sum of the declared sizes. -/
def tupleSize (schema : List SchemaAttribute) : ℕ := (schema.map SchemaAttribute.size).sum

/-- `buffer_size * 1024 / tuple_size`. -/
def tuplesPerBuffer (bufferSize : ℕ) (schema : List SchemaAttribute) : ℕ :=
  bufferSize * 1024 / tupleSize schema

/-- The size of the payload of a buffer. -/
def payloadSize (bufferSize : ℕ) (schema : List SchemaAttribute) : ℕ :=
  tuplesPerBuffer bufferSize schema * tupleSize schema

/-- `MAX_ATTRIBUTES`. -/
def maxAttributes : ℕ := 230

/-- The header of a buffer; `Header{}` has zeros in all fields. -/
structure Header where
  compressionType : ℕ := 0
  totalSize : ℕ := 0
  totalTuples : ℕ := 0
  intermediateFormat : ℕ := 0
  uncompressedSize : ℕ := 0
  attributeSize : List ℕ := List.replicate maxAttributes 0
  deriving DecidableEq, Repr, Inhabited

/-- `sizeof(Header)`: six words and two arrays of words. -/
def sizeofHeader : ℕ := 8 * (6 + 2 * maxAttributes)

/-- A buffer of the pool. -/
structure Buffer where
  header : Header
  payload : List UInt8
  deriving DecidableEq, Inhabited

/-- The payload bytes the header announces. -/
def Buffer.data (b : Buffer) : List UInt8 := b.payload.take b.header.totalSize

/-- The conversion of an `int` to `size_t`. -/
def toSizeT (z : ℤ) : ℕ := if 0 ≤ z then z.toNat else (z + 2 ^ 64).toNat

@[simp] theorem toSizeT_natCast (k : ℕ) : toSizeT k = k := by simp [toSizeT]

end Xdbc
