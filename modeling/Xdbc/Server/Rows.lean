import Xdbc.Server.Deserializers
import Xdbc.Bytes.Grid

/-!
# Rows as text and as cells

A row reaches the deserializer as a line of text and leaves it as one cell for each attribute. The
value of both is the list of the cells: `textRows` reads them from the lines of a buffer, `cellRows`
from the addresses in its payload.

`deserializeRow_rowText` says that `deserializeRow` takes one line of plain fields and writes their
cells at their addresses, so the rows of an output buffer are the rows already there and the new one
(`cellRows_writeRow`). A field is plain if it contains no separator; it is well formed if its cell
is also its own, which the cell of an empty character is not: it takes the separator behind it. A
`RowKind` is either kind of rows.
-/

namespace Xdbc.Server

open Bytes

variable (X : TextSource) (env : RuntimeEnv) (ext : External)

/-! ### The layout of the output buffers -/

/-- The columns of a schema from the offset `off` of the tuple on. -/
def columns : List SchemaAttribute → ℕ → List Column
  | [], _ => []
  | a :: schema, off => ⟨off, a.size, X.stride a, a.width⟩ :: columns schema (off + a.size)

/-- The layout of an output buffer. -/
def layout : Layout := ⟨env.iformat = 1, env.tuplesPerBuffer, env.tupleSize⟩

theorem address_layout (off size width k : ℕ) (a : SchemaAttribute) :
    (layout env).address ⟨off, size, X.stride a, width⟩ k
      = cellAddress env (X.stride a) k off := by
  simp [layout, Layout.address, cellAddress]

variable {X} in
theorem le_off_of_mem_columns {schema : List SchemaAttribute} {off : ℕ} {c : Column}
    (h : c ∈ columns X schema off) : off ≤ c.off := by
  induction schema generalizing off with
  | nil => cases h
  | cons a schema ih =>
    rcases List.mem_cons.mp h with rfl | h
    · exact le_rfl
    · exact (Nat.le_add_right _ _).trans (ih h)

theorem columns_pairwise (schema : List SchemaAttribute) (off : ℕ) :
    (columns X schema off).Pairwise Layout.Apart := by
  induction schema generalizing off with
  | nil => exact .nil
  | cons a schema ih => exact .cons (fun c hc => .inl (le_off_of_mem_columns hc)) (ih _)

variable {env} in
theorem holds_of_mem_columns {schema : List SchemaAttribute} {off : ℕ}
    (h_width : ∀ a ∈ schema, a.width ≤ a.size) (h_size : off + tupleSize schema ≤ env.tupleSize) :
    ∀ c ∈ columns X schema off, (layout env).Holds c := by
  induction schema generalizing off with
  | nil => exact fun c hc => nomatch hc
  | cons a schema ih =>
    rw [tupleSize, List.map_cons, List.sum_cons, ← add_assoc] at h_size
    intro c hc
    rcases List.mem_cons.mp hc with rfl | hc
    · obtain ⟨h_lo, h_hi⟩ := X.stride_le a (h_width a List.mem_cons_self)
      exact ⟨h_lo, h_hi, (Nat.le_add_right _ _).trans h_size⟩
    · exact ih (fun b hb => h_width b (List.mem_cons_of_mem _ hb)) h_size c hc

variable {X env} in
/-- The columns of the schema have room in the output buffers. -/
theorem holds_columns (h_width : ∀ a ∈ env.schema, a.width ≤ a.size) :
    ∀ c ∈ columns X env.schema 0, (layout env).Holds c :=
  holds_of_mem_columns X h_width (by rw [Nat.zero_add]; exact le_rfl)

/-! ### Fields and their cells -/

/-- The cell of a field. -/
def cell (a : SchemaAttribute) (field : List UInt8) : List UInt8 :=
  match a.tpe with
  | .int => int32Bytes ((fromChars field).getD ext.staleInt)
  | .double => doubleBytes ((ext.doubleFromChars field).getD ext.staleDouble)
  | .char => field.take 1
  | .string => field ++ List.replicate (a.size - field.length) 0

/-- The cell of a field in front of the separator `sep`. -/
def cellBefore (sep : UInt8) (a : SchemaAttribute) (field : List UInt8) : List UInt8 :=
  match a.tpe with
  | .char => (field ++ [sep]).take 1
  | _ => cell ext a field

/-- A field is plain: it contains no separator, and if it is a string its cell has room for it. -/
structure PlainField (a : SchemaAttribute) (field : List UInt8) : Prop where
  delimiter : X.delimiter ∉ field
  newline : newline ∉ field
  nul : (0 : UInt8) ∉ field
  room : a.width ≤ a.size
  fits : a.tpe = .string → field.length ≤ a.size

/-- A field is well formed: it contains no separator, and its cell has room for it. -/
structure WellFormedField (a : SchemaAttribute) (field : List UInt8) : Prop where
  delimiter : X.delimiter ∉ field
  newline : newline ∉ field
  nul : (0 : UInt8) ∉ field
  room : a.width ≤ a.size
  fits : match a.tpe with
    | .char => field.length = 1
    | .string => field.length ≤ a.size
    | _ => True

variable {X} in
theorem WellFormedField.plain {a : SchemaAttribute} {field : List UInt8}
    (h : WellFormedField X a field) : PlainField X a field := by
  obtain ⟨h_delimiter, h_newline, h_nul, h_room, h_fits⟩ := h
  refine ⟨h_delimiter, h_newline, h_nul, h_room, fun h_string => ?_⟩
  rw [h_string] at h_fits
  exact h_fits

variable {X} in
/-- The cell of a well-formed field does not depend on the separator. -/
theorem WellFormedField.cellBefore_eq {a : SchemaAttribute} {field : List UInt8}
    (h : WellFormedField X a field) (sep : UInt8) : cellBefore ext sep a field = cell ext a field := by
  have h_fits := h.fits
  obtain ⟨tpe, size⟩ := a
  cases tpe with
  | char =>
    change (field ++ [sep]).take 1 = field.take 1
    rw [List.take_append_of_le_length h_fits.ge]
  | _ => rfl

variable {X} in
theorem PlainField.length_cellBefore {a : SchemaAttribute} {field : List UInt8}
    (h : PlainField X a field) (sep : UInt8) : (cellBefore ext sep a field).length = a.width := by
  have h_fits := h.fits
  obtain ⟨tpe, size⟩ := a
  cases tpe with
  | int => exact length_int32Bytes _
  | double => exact length_doubleBytes _
  | char =>
    simp only [cellBefore, SchemaAttribute.width, List.length_take, List.length_append,
      List.length_singleton]
    omega
  | string =>
    have h_fits : field.length ≤ size := h_fits rfl
    simp only [cellBefore, cell, SchemaAttribute.width, List.length_append, List.length_replicate]
    omega

variable {X} in
/-- The deserializer of a field writes its cell. -/
theorem PlainField.deserialize {a : SchemaAttribute} {field : List UInt8} (h : PlainField X a field)
    (sep : UInt8) (rest dst : List UInt8) (dest : ℕ) :
    deserialize ext a.tpe (field ++ sep :: rest) dst dest a.size field.length
      = put dst dest (cellBefore ext sep a field) := by
  have h_fits := h.fits
  obtain ⟨tpe, size⟩ := a
  cases tpe with
  | int => simp only [Server.deserialize, cellBefore, cell, List.take_left]
  | double => simp only [Server.deserialize, cellBefore, cell, List.take_left]
  | char =>
    simp only [Server.deserialize, cellBefore]
    rw [List.append_cons, List.take_append_of_le_length (by simp)]
  | string =>
    simp only [Server.deserialize, cellBefore, cell, List.take_left]
    rw [put_put_of_le (by simpa using h_fits rfl), List.drop_replicate]

/-! ### Lines -/

/-- The line of a row. -/
def rowText (fields : List (List UInt8)) : List UInt8 :=
  [X.delimiter].intercalate fields ++ [newline]

/-- The fields are plain, one for each attribute. -/
structure PlainRow (schema : List SchemaAttribute) (fields : List (List UInt8)) : Prop where
  ne_nil : schema ≠ []
  fields : List.Forall₂ (PlainField X) schema fields

/-- The fields fit the schema. -/
structure WellFormedRow (schema : List SchemaAttribute) (fields : List (List UInt8)) : Prop where
  ne_nil : schema ≠ []
  fields : List.Forall₂ (WellFormedField X) schema fields

variable {X} in
theorem PlainRow.forall_mem {schema : List SchemaAttribute} {fields : List (List UInt8)}
    (h : PlainRow X schema fields) {p : SchemaAttribute → Prop} {q : List UInt8 → Prop}
    (hp : ∀ a field, PlainField X a field → p a ∧ q field) :
    (∀ a ∈ schema, p a) ∧ ∀ field ∈ fields, q field := by
  obtain ⟨-, h⟩ := h
  induction h with
  | nil => exact ⟨List.forall_mem_nil _, List.forall_mem_nil _⟩
  | cons h_field _ ih =>
    obtain ⟨ha, hf⟩ := hp _ _ h_field
    exact ⟨List.forall_mem_cons.mpr ⟨ha, ih.1⟩, List.forall_mem_cons.mpr ⟨hf, ih.2⟩⟩

variable {X} in
theorem PlainRow.room {schema : List SchemaAttribute} {fields : List (List UInt8)}
    (h : PlainRow X schema fields) : ∀ a ∈ schema, a.width ≤ a.size :=
  (h.forall_mem fun _ _ h_field => ⟨h_field.room, trivial⟩).1

variable {X} in
theorem PlainRow.delimiter {schema : List SchemaAttribute} {fields : List (List UInt8)}
    (h : PlainRow X schema fields) : ∀ field ∈ fields, X.delimiter ∉ field :=
  (h.forall_mem fun _ _ h_field => ⟨trivial, h_field.delimiter⟩).2

variable {X} in
theorem WellFormedRow.plain {schema : List SchemaAttribute} {fields : List (List UInt8)}
    (h : WellFormedRow X schema fields) : PlainRow X schema fields :=
  ⟨h.ne_nil, h.fields.imp fun _ _ h_field => h_field.plain⟩

/-- The cells of a row. -/
def cells (schema : List SchemaAttribute) (fields : List (List UInt8)) : List (List UInt8) :=
  List.zipWith (cell ext) schema fields

/-- The cells of a row of plain fields. -/
def plainCells : (schema : List SchemaAttribute) → (fields : List (List UInt8)) → List (List UInt8)
  | a :: schema, field :: fields =>
    cellBefore ext (if schema.isEmpty then newline else X.delimiter) a field
      :: plainCells schema fields
  | _, _ => []

variable {X} in
/-- The cells of a well-formed row are those of its fields. -/
theorem WellFormedRow.plainCells_eq {schema : List SchemaAttribute} {fields : List (List UInt8)}
    (h : WellFormedRow X schema fields) : plainCells X ext schema fields = cells ext schema fields := by
  obtain ⟨-, h⟩ := h
  induction h with
  | nil => rfl
  | cons h_field _ ih =>
    rw [plainCells, h_field.cellBefore_eq, ih]
    rfl

variable {X} in
theorem widths_plainCells {schema : List SchemaAttribute} {fields : List (List UInt8)}
    (h : List.Forall₂ (PlainField X) schema fields) (off : ℕ) :
    Layout.Widths (columns X schema off) (plainCells X ext schema fields) := by
  induction h generalizing off with
  | nil => exact .nil
  | cons h_field _ ih => exact .cons (h_field.length_cellBefore ext _) (ih _)

variable {X env} in
/-- **`deserializeRow` takes one line and writes its cells.** -/
theorem deserializeRow_rowText (h_format : env.iformat = 1 ∨ env.iformat = 2) (k : ℕ)
    {schema : List SchemaAttribute} {fields : List (List UInt8)}
    (h : PlainRow X schema fields) (off : ℕ) (rest dst : List UInt8) :
    deserializeRow X env ext k schema (rowText X fields ++ rest) off dst
      = some ((rowText X fields).length,
        (layout env).writeRow k (columns X schema off) (plainCells X ext schema fields) dst) := by
  obtain ⟨h_ne, h_fields⟩ := h
  -- induction over the columns: the field before the next separator, then what follows it
  induction h_fields generalizing off dst with
  | nil => exact absurd rfl h_ne
  | @cons a field schema fields h_field h_fields ih =>
    rw [deserializeRow, columns, plainCells, Layout.writeRow, address_layout]
    cases h_fields with
    -- the last field, up to the newline
    | nil =>
      have h_text : rowText X [field] ++ rest = field ++ newline :: rest := by
        simp [rowText, List.intercalate]
      rw [h_text, List.isEmpty_nil, if_pos rfl, strchr_append h_field.newline h_field.nul]
      simp only [if_pos h_format, h_field.deserialize, deserializeRow]
      simp [rowText, List.intercalate, columns, plainCells, Layout.writeRow]
    -- another field follows behind the delimiter
    | @cons b next schema fields h_next h_fields =>
      have h_text : rowText X (field :: next :: fields)
          = field ++ X.delimiter :: rowText X (next :: fields) := by
        simp [rowText, List.intercalate]
      have h_drop : (field ++ X.delimiter :: (rowText X (next :: fields) ++ rest)).drop
          (field.length + 1) = rowText X (next :: fields) ++ rest := by
        rw [List.drop_append, List.drop_eq_nil_of_le (by omega)]
        simp
      rw [h_text, List.append_assoc, List.cons_append, List.isEmpty_cons,
        if_neg Bool.false_ne_true, strchr_append h_field.delimiter h_field.nul]
      simp only [if_pos h_format, h_field.deserialize, h_drop]
      rw [ih _ _ (by simp)]
      simp
      omega

variable {X} in
theorem newline_notMem_intercalate {schema : List SchemaAttribute} {fields : List (List UInt8)}
    (h : List.Forall₂ (PlainField X) schema fields) :
    newline ∉ [X.delimiter].intercalate fields := by
  induction h with
  | nil => simp [List.intercalate]
  | @cons a field schema fields h_field h_fields ih =>
    cases h_fields with
    | nil => simpa [List.intercalate] using h_field.newline
    | cons _ _ =>
      simp only [List.intercalate, List.intersperse_cons_cons, List.flatten_cons,
        List.mem_append, List.mem_singleton, not_or] at ih ⊢
      exact ⟨h_field.newline, X.delimiter_ne.symm, ih⟩

/-- The rows of a text, as their fields. -/
def fieldRows (text : List UInt8) : List (List (List UInt8)) :=
  (lines text).map (·.splitOn X.delimiter)

variable {X} in
/-- A row comes first among the rows of a text. -/
theorem PlainRow.fieldRows_append {schema : List SchemaAttribute} {fields : List (List UInt8)}
    (h : PlainRow X schema fields) (text : List UInt8) :
    fieldRows X (rowText X fields ++ text) = fields :: fieldRows X text := by
  have h_ne : fields ≠ [] := by
    rintro rfl
    exact h.ne_nil (List.forall₂_nil_right_iff.mp h.fields)
  rw [fieldRows, rowText, List.append_assoc, List.singleton_append,
    lines_cons (newline_notMem_intercalate h.fields), List.map_cons,
    List.splitOn_intercalate _ h.delimiter h_ne]
  rfl

variable {X} in
/-- The rows of a text of whole lines. -/
theorem fieldRows_flatMap {schema : List SchemaAttribute} {rows : List (List (List UInt8))}
    (h : ∀ fields ∈ rows, PlainRow X schema fields) :
    fieldRows X (rows.flatMap (rowText X)) = rows := by
  induction rows with
  | nil => rfl
  | cons fields rows ih =>
    obtain ⟨h_first, h_rows⟩ := List.forall_mem_cons.mp h
    rw [List.flatMap_cons, h_first.fieldRows_append, ih h_rows]

/-! ### Kinds of rows -/

/-- A kind of rows: the fields of such a row are plain, and `row` are its cells. -/
structure RowKind where
  Good : List (List UInt8) → Prop
  row : List (List UInt8) → List (List UInt8)
  plain : ∀ {fields}, Good fields → PlainRow X env.schema fields
  row_eq : ∀ {fields}, Good fields → row fields = plainCells X ext env.schema fields

/-- The rows of plain fields. -/
def plainKind : RowKind X env ext where
  Good := PlainRow X env.schema
  row := plainCells X ext env.schema
  plain h := h
  row_eq _ := rfl

/-- The well-formed rows. -/
def wellFormedKind : RowKind X env ext where
  Good := WellFormedRow X env.schema
  row := cells ext env.schema
  plain h := h.plain
  row_eq h := (h.plainCells_eq ext).symm

/-! ### The rows of a buffer -/

/-- A row, as the list of its cells. -/
abbrev Row : Type := List (List UInt8)

/-- The rows of a text. -/
def textRows (text : List UInt8) : List Row :=
  (lines text).map fun line => cells ext env.schema (line.splitOn X.delimiter)

/-- The first `k` rows of a table. -/
def cellRows (k : ℕ) (block : List UInt8) : List Row :=
  (List.range k).map fun i => (layout env).readRow (columns X env.schema 0) i block

/-- The rows of a buffer: the cells of a table if the header names its format, lines of text
otherwise. -/
def bufferRows (b : Buffer) : List Row :=
  if b.header.intermediateFormat = 0 then textRows X env ext b.data
  else cellRows X env b.header.totalTuples b.data

variable {X env ext}

theorem textRows_eq_map (text : List UInt8) :
    textRows X env ext text = (fieldRows X text).map (cells ext env.schema) := by
  simp [textRows, fieldRows]

/-- A line is a row. -/
theorem textRows_rowText_append {fields : List (List UInt8)}
    (h : WellFormedRow X env.schema fields) (text : List UInt8) :
    textRows X env ext (rowText X fields ++ text)
      = cells ext env.schema fields :: textRows X env ext text := by
  rw [textRows_eq_map, h.plain.fieldRows_append, List.map_cons, ← textRows_eq_map]

/-- Cells that are written behind the others are the last row. -/
theorem cellRows_writeRow_of_widths (h_width : ∀ a ∈ env.schema, a.width ≤ a.size)
    {vs : List (List UInt8)} (h_widths : Layout.Widths (columns X env.schema 0) vs) {k : ℕ}
    (hk : k < env.tuplesPerBuffer) {block : List UInt8} (h_block : block.length = env.payloadSize) :
    cellRows X env (k + 1) ((layout env).writeRow k (columns X env.schema 0) vs block)
      = cellRows X env k block ++ [vs] := by
  have h_holds := holds_columns (X := X) h_width
  have h_apart := columns_pairwise X env.schema 0
  rw [cellRows, List.range_succ, List.map_append, List.map_singleton,
    Layout.readRow_writeRow_same h_widths h_apart h_holds hk h_block.ge]
  refine congrArg (· ++ _) (List.map_congr_left fun i hi => ?_)
  have hi := List.mem_range.mp hi
  exact Layout.readRow_writeRow_of_ne h_widths h_apart h_holds hk (by simp only [layout]; omega)
    (by omega) block

/-- A row that is written behind the others is the last one. -/
theorem RowKind.cellRows_writeRow (R : RowKind X env ext) {fields : List (List UInt8)}
    (h : R.Good fields) {k : ℕ} (hk : k < env.tuplesPerBuffer) {block : List UInt8}
    (h_block : block.length = env.payloadSize) :
    cellRows X env (k + 1) ((layout env).writeRow k (columns X env.schema 0)
      (plainCells X ext env.schema fields) block)
      = cellRows X env k block ++ [R.row fields] := by
  rw [R.row_eq h]
  exact cellRows_writeRow_of_widths (R.plain h).room (widths_plainCells ext (R.plain h).fields 0) hk
    h_block

/-- The header of a table announces all cells of its rows. -/
theorem cellRows_take (h_width : ∀ a ∈ env.schema, a.width ≤ a.size) {k size : ℕ}
    (hk : k ≤ env.tuplesPerBuffer)
    (h_size : env.iformat = 1 ∧ k * env.tupleSize ≤ size ∨
      env.tuplesPerBuffer * env.tupleSize ≤ size) (block : List UInt8) :
    cellRows X env k (block.take size) = cellRows X env k block := by
  have h_holds := holds_columns (X := X) h_width
  refine List.map_congr_left fun i hi => Layout.readRow_take (fun c hc => ?_) block
  have hi := List.mem_range.mp hi
  rcases h_size with ⟨h_format, h_size⟩ | h_size
  · exact ((h_holds c hc).address_add_le_of_rowMajor (by simp [layout, h_format]) hi).trans h_size
  · exact ((h_holds c hc).address_add_le (by simp only [layout]; omega)).trans h_size

end Xdbc.Server
