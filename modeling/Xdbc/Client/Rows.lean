import Xdbc.Client.Serializers
import Xdbc.Bytes.Grid

/-!
# Rows as cells and as lines

`CsvSink::serialize` reads a row of a table as one cell for each attribute, from the addresses in the
payload or from the columns of a record batch (`rowCells`), and writes it as a line. The line depends
on the cells alone (`rowBytes_eq_lineOf`).
-/

namespace Xdbc.Client

open Bytes

/-! ### The layout of the input buffers -/

/-- The columns of a schema from the offset `off` of the tuple on. -/
def columns : List SchemaAttribute → ℕ → List Column
  | [], _ => []
  | a :: schema, off => ⟨off, a.width, a.width, a.width⟩ :: columns schema (off + a.width)

/-- The layout of an input buffer. -/
def layout (env : RuntimeEnv) : Layout := ⟨env.iformat = 1, env.tuplesPerBuffer, totalRowSize env⟩

theorem le_off_of_mem_columns {schema : List SchemaAttribute} {off : ℕ} {c : Column}
    (h : c ∈ columns schema off) : off ≤ c.off := by
  induction schema generalizing off with
  | nil => cases h
  | cons a schema ih =>
    rcases List.mem_cons.mp h with rfl | h
    · exact le_rfl
    · exact (Nat.le_add_right _ _).trans (ih h)

theorem columns_pairwise (schema : List SchemaAttribute) (off : ℕ) :
    (columns schema off).Pairwise Layout.Apart := by
  induction schema generalizing off with
  | nil => exact .nil
  | cons a schema ih => exact .cons (fun c hc => .inl (le_off_of_mem_columns hc)) (ih _)

theorem holds_of_mem_columns {env : RuntimeEnv} {schema : List SchemaAttribute} {off : ℕ}
    (h_size : off + (schema.map SchemaAttribute.width).sum ≤ totalRowSize env) :
    ∀ c ∈ columns schema off, (layout env).Holds c := by
  induction schema generalizing off with
  | nil => exact fun c hc => nomatch hc
  | cons a schema ih =>
    rw [List.map_cons, List.sum_cons, ← add_assoc] at h_size
    intro c hc
    rcases List.mem_cons.mp hc with rfl | hc
    · exact ⟨le_rfl, le_rfl, (Nat.le_add_right _ _).trans h_size⟩
    · exact ih h_size c hc

/-- The columns of the schema have room in the input buffers. -/
theorem holds_columns (env : RuntimeEnv) : ∀ c ∈ columns env.schema 0, (layout env).Holds c :=
  holds_of_mem_columns (by rw [Nat.zero_add]; exact le_rfl)

/-! ### Lines -/

section Lines

variable (env : RuntimeEnv) (ext : External)

/-- The line of a row of cells. -/
def lineOf : List SchemaAttribute → List (List UInt8) → List UInt8
  | a :: schema, cell :: cells =>
    serializeAttribute ext a cell (delimiterBefore schema) ++ lineOf schema cells
  | _, _ => []

/-- The cells of row `i`. -/
def rowCells (cells : ℕ → ℕ → List UInt8) (payload : List UInt8) (i : ℕ) : List (List UInt8) :=
  if env.iformat = 1 ∨ env.iformat = 2 then
    (layout env).readRow (columns env.schema 0) i payload
  else (List.range' 0 env.schema.length).map (cells i)

/-- The cells that are not read from the payload: those of the columns of a record batch, or
whatever an uninitialised pointer points to. -/
def readFrom (cells : ℕ → ℕ → List UInt8) : ℕ → ℕ → List UInt8 :=
  if env.iformat = 3 then cells else ext.staleData

variable {env}

/-- An attribute is serialized from the bytes of its cell. -/
theorem serializeAttribute_take (a : SchemaAttribute) (data : List UInt8) (delimiter : UInt8) :
    serializeAttribute ext a (data.take a.width) delimiter
      = serializeAttribute ext a data delimiter := by
  obtain ⟨tpe, size⟩ := a
  cases tpe with
  | int => simp only [serializeAttribute, SchemaAttribute.width, List.take_take, Nat.min_self]
  | double => simp only [serializeAttribute, SchemaAttribute.width, List.take_take, Nat.min_self]
  | char => cases data <;> simp [serializeAttribute, SchemaAttribute.width]
  | string =>
    have h_len : strnlen data size ≤ size := by
      unfold strnlen
      exact (List.takeWhile_prefix _).length_le.trans (List.length_take_le _ _)
    have h_text : strnlen (data.take size) size = strnlen data size := by
      rw [strnlen, List.take_take, Nat.min_self, strnlen]
    simp only [serializeAttribute, SchemaAttribute.width]
    rw [h_text, List.take_take, Nat.min_eq_left h_len]

variable {ext}

/-- Where an attribute of a table is read is its cell. -/
theorem take_dataPtr (h_format : env.iformat = 1 ∨ env.iformat = 2) (cells : ℕ → ℕ → List UInt8)
    (payload : List UInt8) (i j off width : ℕ) :
    (dataPtr env ext cells payload i j off (env.tuplesPerBuffer * off) width).take width
      = slice payload ((layout env).address ⟨off, width, width, width⟩ i) width := by
  rcases h_format with h_one | h_two
  · simp [dataPtr, slice, layout, Layout.address, h_one]
  · simp [dataPtr, slice, layout, Layout.address, h_two, Nat.mul_comm]

theorem serializeRow_of_table (h_format : env.iformat = 1 ∨ env.iformat = 2)
    (cells : ℕ → ℕ → List UInt8) (payload : List UInt8) (i : ℕ) (schema : List SchemaAttribute)
    (j off : ℕ) :
    serializeRow env ext cells payload i schema j off (env.tuplesPerBuffer * off)
      = lineOf ext schema ((layout env).readRow (columns schema off) i payload) := by
  induction schema generalizing j off with
  | nil => rfl
  | cons a schema ih =>
    rw [serializeRow, ← Nat.mul_add, ih, ← serializeAttribute_take, take_dataPtr h_format]
    rfl

theorem serializeRow_of_batch (h_format : ¬ (env.iformat = 1 ∨ env.iformat = 2))
    (cells : ℕ → ℕ → List UInt8) (payload : List UInt8) (i : ℕ) (schema : List SchemaAttribute)
    (j off start : ℕ) :
    serializeRow env ext cells payload i schema j off start
      = lineOf ext schema ((List.range' j schema.length).map (readFrom env ext cells i)) := by
  induction schema generalizing j off start with
  | nil => rfl
  | cons a schema ih =>
    have h_data : dataPtr env ext cells payload i j off start a.width
        = readFrom env ext cells i j := by
      rw [dataPtr, if_neg fun h => h_format (.inl h), if_neg fun h => h_format (.inr h), readFrom]
      split <;> rfl
    rw [serializeRow, ih, h_data]
    rfl

/-- **The line of a row is the line of its cells**, in whatever format they are read. -/
theorem rowBytes_eq_lineOf (cells : ℕ → ℕ → List UInt8) (payload : List UInt8) (i : ℕ) :
    rowBytes env ext cells payload i
      = lineOf ext env.schema (rowCells env (readFrom env ext cells) payload i) := by
  rw [rowBytes, rowCells]
  split
  · next h_table => exact serializeRow_of_table h_table cells payload i env.schema 0 0
  · next h_batch => exact serializeRow_of_batch h_batch cells payload i env.schema 0 0 0

end Lines

end Xdbc.Client
