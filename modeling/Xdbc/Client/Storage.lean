import Xdbc.Client.Handout
import Xdbc.Client.Lengths

/-!
# What the test client stores

`Tester::storageThread` writes the buffers it is handed to a file, as text. It has its own loops,
which put a comma before each field but the first and advance pointers through the payload, where
`CsvSink::serialize` puts a delimiter behind each field and computes every address. And it prints a
number into an array of 20 characters first. Both write the same text, if the texts of the doubles
have room there (`storageText_eq_tableBytes`). In a whole run the files of all threads together have
the text of what the server sends, each buffer once (`storage_sent`).
-/

namespace Xdbc.Client

open Bytes Pipeline

/-! ### The loops of `Tester::storageThread` -/

section Loops

variable (env : RuntimeEnv) (ext : External)

/-- What `sprintf` leaves in `char tempBuffer[20]`, `none` if there is no room for the text and the
character that ends it. -/
def tempBuffer (text : List UInt8) : Option (List UInt8) :=
  if text.length < 20 then some text else none

/-- `serialize<T>(data, buffer, size)`: what is appended to `csvBuffer`. -/
def serializeField (a : SchemaAttribute) (data : List UInt8) : Option (List UInt8) :=
  match a.tpe with
  | .int => tempBuffer (printInt (int32OfBytes (data.take 4)))
  | .double => tempBuffer (ext.formatDouble (UInt64.ofNat (ofLeBytes (data.take 8))))
  | .char => some [data.headD 0]
  | .string => some (data.take (strnlen data a.width))

/-- The fields of a tuple behind the first, in the row format. -/
def storageFields (dataPtr : List UInt8) :
    List SchemaAttribute → (offset : ℕ) → Option (List UInt8)
  | [], _ => some []
  | a :: schema, offset => do
    let field ← serializeField ext a (dataPtr.drop offset)
    let fields ← storageFields dataPtr schema (offset + a.width)
    return comma :: field ++ fields

/-- The text of the tuple at `dataPtr`. -/
def storageRow (dataPtr : List UInt8) : List SchemaAttribute → Option (List UInt8)
  | [] => some [newline]
  | a :: schema => do
    let field ← serializeField ext a dataPtr
    let fields ← storageFields ext dataPtr schema a.width
    return field ++ fields ++ [newline]

/-- The loop over the tuples in the row format, which moves `dataPtr`. -/
def storageRows : (totalTuples : ℕ) → (dataPtr : List UInt8) → Option (List UInt8)
  | 0, _ => some []
  | n + 1, dataPtr => do
    let row ← storageRow ext dataPtr env.schema
    let rows ← storageRows n (dataPtr.drop (totalRowSize env))
    return row ++ rows

/-- The fields of tuple `i` behind the first, in the columnar format; `offset` is where the column
begins. -/
def storageCells (buff : List UInt8) (i : ℕ) :
    List SchemaAttribute → (offset : ℕ) → Option (List UInt8)
  | [], _ => some []
  | a :: schema, offset => do
    let field ← serializeField ext a (buff.drop (offset + i * a.width))
    let fields ← storageCells buff i schema (offset + env.tuplesPerBuffer * a.size)
    return comma :: field ++ fields

/-- The text of tuple `i` in the columnar format. -/
def storageColumnRow (buff : List UInt8) (i : ℕ) : List SchemaAttribute → Option (List UInt8)
  | [] => some [newline]
  | a :: schema => do
    let field ← serializeField ext a (buff.drop (i * a.width))
    let fields ← storageCells env ext buff i schema (env.tuplesPerBuffer * a.size)
    return field ++ fields ++ [newline]

/-- The loop over the tuples in the columnar format, from tuple `i` on. -/
def storageColumnRows (buff : List UInt8) : (totalTuples i : ℕ) → Option (List UInt8)
  | 0, _ => some []
  | n + 1, i => do
    let row ← storageColumnRow env ext buff i env.schema
    let rows ← storageColumnRows buff n (i + 1)
    return row ++ rows

/-- What `Tester::storageThread` appends to its file for a buffer, `none` if it has written behind
the end of `tempBuffer`. In the other formats it is nothing. -/
def storageText (x : BuffWithId) : Option (List UInt8) :=
  if x.iformat = 1 then storageRows env ext x.totalTuples x.buff
  else if x.iformat = 2 then storageColumnRows env ext x.buff x.totalTuples 0
  else some []

/-- `Tester::storageThread`: the file of a thread. -/
def storageThread : List BuffWithId → Option (List UInt8)
  | [] => some []
  | x :: xs => do
    let text ← storageText env ext x
    let texts ← storageThread xs
    return text ++ texts

end Loops

/-! ### Fields -/

section Fields

variable {env : RuntimeEnv} (ext : External)

/-- The text of the value has room in `tempBuffer`. That of an `int` always has. -/
def FieldFits (a : SchemaAttribute) (data : List UInt8) : Prop :=
  a.tpe = .double → (ext.formatDouble (UInt64.ofNat (ofLeBytes (data.take 8)))).length < 20

instance (a : SchemaAttribute) (data : List UInt8) : Decidable (FieldFits ext a data) :=
  inferInstanceAs (Decidable (_ → _))

variable {ext} {a : SchemaAttribute} {data : List UInt8}

theorem tempBuffer_of_lt {text : List UInt8} (h : text.length < 20) : tempBuffer text = some text :=
  if_pos h

/-- What is appended is the text of the sink without its delimiter. -/
theorem FieldFits.exists_field (h : FieldFits ext a data) :
    ∃ field, serializeField ext a data = some field ∧
      ∀ d, serializeAttribute ext a data d = field ++ [d] := by
  obtain ⟨tpe, size⟩ := a
  cases tpe with
  | int =>
    have h_range := int32OfBytes_mem (data.take 4)
    obtain ⟨-, h_length⟩ := length_printInt h_range.1 h_range.2
    exact ⟨_, tempBuffer_of_lt (h_length.trans_lt (by decide)), fun _ => rfl⟩
  | double => exact ⟨_, tempBuffer_of_lt (h rfl), fun _ => rfl⟩
  | char => exact ⟨_, rfl, fun _ => rfl⟩
  | string => exact ⟨_, rfl, fun _ => rfl⟩

theorem serializeField_of_not_fits (h : ¬ FieldFits ext a data) : serializeField ext a data = none := by
  obtain ⟨h_tpe, h_long⟩ := Classical.not_imp.mp h
  obtain ⟨tpe, size⟩ := a
  obtain rfl : tpe = .double := h_tpe
  exact if_neg h_long

/-- A field is serialized from the bytes of its cell. -/
theorem serializeField_take (a : SchemaAttribute) (data : List UInt8) :
    serializeField ext a (data.take a.width) = serializeField ext a data := by
  have h_same : FieldFits ext a (data.take a.width) ↔ FieldFits ext a data := by
    refine imp_congr_right fun h_tpe => ?_
    rw [SchemaAttribute.width, h_tpe, List.take_take]
    rfl
  by_cases h : FieldFits ext a data
  · obtain ⟨field, h_field, h_text⟩ := h.exists_field
    obtain ⟨field', h_field', h_text'⟩ := (h_same.mpr h).exists_field
    have h_eq := (h_text' 0).symm.trans ((serializeAttribute_take ext a data 0).trans (h_text 0))
    rw [h_field, h_field', List.append_cancel_right h_eq]
  · rw [serializeField_of_not_fits h, serializeField_of_not_fits (h_same.not.mpr h)]

end Fields

/-! ### Lines -/

section Lines

variable {env : RuntimeEnv} {ext : External}

theorem length_columns (schema : List SchemaAttribute) (off : ℕ) :
    (columns schema off).length = schema.length := by
  induction schema generalizing off with
  | nil => rfl
  | cons a schema ih => rw [columns, List.length_cons, ih, List.length_cons]

variable (ext) in
/-- The fields of a tuple behind the first, from their cells. -/
def joinFields : List SchemaAttribute → List (List UInt8) → Option (List UInt8)
  | a :: schema, cell :: cells => do
    let field ← serializeField ext a cell
    let fields ← joinFields schema cells
    return comma :: field ++ fields
  | _, _ => some []

/-- The texts of all fields of the tuple have room in `tempBuffer`. -/
def RowFits (ext : External) (schema : List SchemaAttribute) (cells : List (List UInt8)) : Prop :=
  List.Forall₂ (FieldFits ext) schema cells

instance (schema : List SchemaAttribute) (cells : List (List UInt8)) :
    Decidable (RowFits ext schema cells) :=
  decidable_of_iff
    (schema.length = cells.length ∧ ∀ p ∈ schema.zip cells, FieldFits ext p.1 p.2)
    ⟨fun h => List.forall₂_iff_zip.mpr ⟨h.1, fun hp => h.2 _ hp⟩,
      fun h => ⟨h.length_eq, fun _ hp => (List.forall₂_iff_zip.mp h).2 hp⟩⟩

/-- **Delimiters before the fields** are delimiters behind the ones before and a newline at the
end. -/
theorem joinFields_line (a : SchemaAttribute) (cell : List UInt8) (schema : List SchemaAttribute)
    (cells : List (List UInt8)) (h_length : schema.length = cells.length) :
    (RowFits ext (a :: schema) (cell :: cells) → ∃ field fields,
        serializeField ext a cell = some field ∧ joinFields ext schema cells = some fields ∧
        field ++ fields ++ [newline] = lineOf ext (a :: schema) (cell :: cells)) ∧
      (¬ RowFits ext (a :: schema) (cell :: cells) →
        serializeField ext a cell = none ∨ joinFields ext schema cells = none) := by
  induction schema generalizing a cell cells with
  | nil =>
    obtain rfl : cells = [] := List.eq_nil_of_length_eq_zero h_length.symm
    constructor
    · rintro (_ | ⟨h_cell, -⟩)
      obtain ⟨field, h_field, h_text⟩ := h_cell.exists_field
      refine ⟨field, [], h_field, rfl, ?_⟩
      rw [lineOf, h_text]
      simp [lineOf, delimiterBefore]
    · exact fun h => .inl (serializeField_of_not_fits fun h_cell => h (.cons h_cell .nil))
  | cons b schema ih =>
    obtain ⟨next, cells, rfl⟩ := List.exists_cons_of_length_eq_add_one h_length.symm
    obtain ⟨h_fits, h_not⟩ := ih b next cells (by simpa using h_length)
    constructor
    · rintro (_ | ⟨h_cell, h_cells⟩)
      obtain ⟨field, h_field, h_text⟩ := h_cell.exists_field
      obtain ⟨field', fields, h_field', h_fields, h_line⟩ := h_fits h_cells
      refine ⟨field, comma :: field' ++ fields, h_field, ?_, ?_⟩
      · rw [joinFields, h_field', h_fields]
        rfl
      · rw [lineOf, ← h_line, h_text]
        simp [delimiterBefore]
    · intro h
      by_cases h_cell : FieldFits ext a cell
      · right
        rw [joinFields]
        rcases h_not fun h_cells => h (.cons h_cell h_cells) with h_none | h_none
        · rw [h_none]
          rfl
        · rw [h_none]
          cases serializeField ext b next <;> rfl
      · exact .inl (serializeField_of_not_fits h_cell)

/-- In the row format the fields are read from the cells of the row. -/
theorem storageFields_eq (h_format : env.iformat = 1) (payload : List UInt8) (i : ℕ)
    (schema : List SchemaAttribute) (offset : ℕ) :
    storageFields ext (payload.drop (i * totalRowSize env)) schema offset
      = joinFields ext schema ((layout env).readRow (columns schema offset) i payload) := by
  induction schema generalizing offset with
  | nil => rfl
  | cons a schema ih =>
    have h_cell : slice payload ((layout env).address ⟨offset, a.width, a.width, a.width⟩ i) a.width
        = ((payload.drop (i * totalRowSize env)).drop offset).take a.width := by
      simp [slice, layout, Layout.address, h_format, List.drop_drop]
    have h_field : serializeField ext a
        (((payload.drop (i * totalRowSize env)).drop offset).take a.width) = _ :=
      serializeField_take a _
    rw [storageFields, ih, ← h_field, ← h_cell]
    rfl

/-- In the columnar format too, if the declared sizes are those of the types. -/
theorem storageCells_eq (h_format : env.iformat = 2) (payload : List UInt8) (i : ℕ)
    (schema : List SchemaAttribute) (h_canonical : ∀ a ∈ schema, a.Canonical) (offset : ℕ) :
    storageCells env ext payload i schema (env.tuplesPerBuffer * offset)
      = joinFields ext schema ((layout env).readRow (columns schema offset) i payload) := by
  induction schema generalizing offset with
  | nil => rfl
  | cons a schema ih =>
    obtain ⟨⟨h_size, -⟩, h_rest⟩ := List.forall_mem_cons.mp h_canonical
    have h_cell : slice payload ((layout env).address ⟨offset, a.width, a.width, a.width⟩ i) a.width
        = (payload.drop (env.tuplesPerBuffer * offset + i * a.width)).take a.width := by
      simp [slice, layout, Layout.address, h_format, Nat.mul_comm]
    have h_field : serializeField ext a
        ((payload.drop (env.tuplesPerBuffer * offset + i * a.width)).take a.width) = _ :=
      serializeField_take a _
    rw [storageCells, h_size, ← Nat.mul_add, ih h_rest, ← h_field, ← h_cell]
    rfl

end Lines

/-! ### The same text as that of the sink -/

section Text

variable {env : RuntimeEnv} {ext : External}

/-- The texts of all doubles in the first `n` tuples have room in `tempBuffer`. -/
def TextFits (env : RuntimeEnv) (ext : External) (payload : List UInt8) (n : ℕ) : Prop :=
  ∀ i < n, RowFits ext env.schema ((layout env).readRow (columns env.schema 0) i payload)

instance (payload : List UInt8) (n : ℕ) : Decidable (TextFits env ext payload n) :=
  Nat.decidableBallLT n _

/-- The line of a tuple is that of its cells, or the thread writes behind the end of the array. -/
theorem storageLine_eq (h_format : env.iformat = 1 ∨ env.iformat = 2) (cells : ℕ → ℕ → List UInt8)
    (payload : List UInt8) (i : ℕ) {line : Option (List UInt8)} {a : SchemaAttribute}
    {schema : List SchemaAttribute} {first : List UInt8} (h_schema : env.schema = a :: schema)
    (h_first : serializeField ext a first = serializeField ext a
      (slice payload ((layout env).address ⟨0, a.width, a.width, a.width⟩ i) a.width))
    (h_line : line = do
      let field ← serializeField ext a first
      let fields ← joinFields ext schema
        ((layout env).readRow (columns schema a.width) i payload)
      return field ++ fields ++ [newline]) :
    (RowFits ext env.schema ((layout env).readRow (columns env.schema 0) i payload) →
        line = some (rowBytes env ext cells payload i)) ∧
      (¬ RowFits ext env.schema ((layout env).readRow (columns env.schema 0) i payload) →
        line = none) := by
  have h_columns : columns (a :: schema) 0
      = ⟨0, a.width, a.width, a.width⟩ :: columns schema a.width := by
    rw [columns, Nat.zero_add]
  have h_length : schema.length
      = ((layout env).readRow (columns schema a.width) i payload).length := by
    rw [Layout.readRow, List.length_map, length_columns]
  have h_text : rowBytes env ext cells payload i
      = lineOf ext env.schema ((layout env).readRow (columns env.schema 0) i payload) := by
    rw [rowBytes_eq_lineOf, rowCells, if_pos h_format]
  -- the first field stands in front of the line, a comma before each of the others
  obtain ⟨h_fits, h_not⟩ := @joinFields_line ext a
    (slice payload ((layout env).address ⟨0, a.width, a.width, a.width⟩ i) a.width) schema
    ((layout env).readRow (columns schema a.width) i payload) h_length
  rw [h_text, h_line, h_first, h_schema, h_columns]
  constructor
  · intro h
    obtain ⟨field, fields, h_field, h_fields, h_all⟩ := h_fits h
    rw [h_field, h_fields]
    exact congrArg some h_all
  · intro h
    -- a value that does not fit undoes the whole line
    rcases h_not h with h_none | h_none
    · rw [h_none]
      rfl
    · rw [h_none]
      cases serializeField ext a _ <;> rfl

/-- **The loop over the tuples** writes the lines one after the other, until one does not fit. -/
theorem rows_of_lines (rows : ℕ → ℕ → Option (List UInt8)) {row : ℕ → Option (List UInt8)}
    {fits : ℕ → Prop} {text : ℕ → List UInt8} (h_zero : ∀ k, rows 0 k = some [])
    (h_succ : ∀ n k, rows (n + 1) k = do
      let r ← row k
      let rs ← rows n (k + 1)
      return r ++ rs)
    (h_row : ∀ i, (fits i → row i = some (text i)) ∧ (¬ fits i → row i = none)) (n k : ℕ) :
    ((∀ i ∈ List.range' k n, fits i) → rows n k = some ((List.range' k n).flatMap text)) ∧
      ((¬ ∀ i ∈ List.range' k n, fits i) → rows n k = none) := by
  -- induction over the rows that are left, with the number of the next one
  induction n generalizing k with
  | zero => exact ⟨fun _ => h_zero k, fun h => absurd (List.forall_mem_nil _) h⟩
  | succ n ih =>
    obtain ⟨h_fits, h_not⟩ := ih (k + 1)
    rw [List.range'_succ, List.forall_mem_cons, h_succ]
    constructor
    · rintro ⟨h_k, h_rest⟩
      rw [(h_row k).1 h_k, h_fits h_rest]
      rfl
    · intro h
      by_cases h_k : fits k
      · rw [(h_row k).1 h_k, h_not fun h_rest => h ⟨h_k, h_rest⟩]
        rfl
      · rw [(h_row k).2 h_k]
        rfl

variable (env ext) in
/-- What becomes of the first `n` tuples: their lines, if the text of every double has room. -/
def Stores (cells : ℕ → ℕ → List UInt8) (payload : List UInt8) (n : ℕ)
    (text : Option (List UInt8)) : Prop :=
  (TextFits env ext payload n → text = some (tableBytes env ext cells payload n)) ∧
    (¬ TextFits env ext payload n → text = none)

/-- The lines of the first tuples are those of the tuples from 0 on. -/
theorem stores_iff {cells : ℕ → ℕ → List UInt8} {payload : List UInt8} {n : ℕ}
    {text : Option (List UInt8)} : Stores env ext cells payload n text ↔
      ((∀ i ∈ List.range' 0 n,
          RowFits ext env.schema ((layout env).readRow (columns env.schema 0) i payload)) →
        text = some ((List.range' 0 n).flatMap (rowBytes env ext cells payload))) ∧
      ((¬ ∀ i ∈ List.range' 0 n,
          RowFits ext env.schema ((layout env).readRow (columns env.schema 0) i payload)) →
        text = none) := by
  simp only [← List.range_eq_range', List.mem_range]
  rfl

theorem storageRows_stores (h_schema : env.schema ≠ []) (h_format : env.iformat = 1)
    (cells : ℕ → ℕ → List UInt8) (buff : List UInt8) (n : ℕ) :
    Stores env ext cells buff n (storageRows env ext n buff) := by
  obtain ⟨a, schema, h_cons⟩ := List.exists_cons_of_ne_nil h_schema
  have h_first : ∀ i, serializeField ext a (buff.drop (i * totalRowSize env)) = serializeField ext a
      (slice buff ((layout env).address ⟨0, a.width, a.width, a.width⟩ i) a.width) := fun i => by
    rw [← serializeField_take]
    simp [slice, layout, Layout.address, h_format]
  have h_line : ∀ i, storageRow ext (buff.drop (i * totalRowSize env)) env.schema = do
      let field ← serializeField ext a (buff.drop (i * totalRowSize env))
      let fields ← joinFields ext schema ((layout env).readRow (columns schema a.width) i buff)
      return field ++ fields ++ [newline] := fun i => by
    rw [h_cons, storageRow, storageFields_eq h_format]
  -- the pointer at tuple `k` is `k` rows behind the beginning
  have h_next : ∀ n k, storageRows env ext (n + 1) (buff.drop (k * totalRowSize env)) = do
      let row ← storageRow ext (buff.drop (k * totalRowSize env)) env.schema
      let rows ← storageRows env ext n (buff.drop ((k + 1) * totalRowSize env))
      return row ++ rows := fun n k => by
    rw [storageRows, List.drop_drop, Nat.succ_mul]
  have h_rows := rows_of_lines
    (fun n k => storageRows env ext n (buff.drop (k * totalRowSize env))) (fun _ => rfl) h_next
    (fun i => storageLine_eq (.inl h_format) cells buff i h_cons (h_first i) (h_line i)) n 0
  rw [Nat.zero_mul, List.drop_zero] at h_rows
  exact stores_iff.mpr h_rows

theorem storageColumnRows_stores (h_schema : env.schema ≠ [])
    (h_canonical : ∀ a ∈ env.schema, a.Canonical) (h_format : env.iformat = 2)
    (cells : ℕ → ℕ → List UInt8) (buff : List UInt8) (n : ℕ) :
    Stores env ext cells buff n (storageColumnRows env ext buff n 0) := by
  obtain ⟨a, schema, h_cons⟩ := List.exists_cons_of_ne_nil h_schema
  obtain ⟨⟨h_size, -⟩, h_rest⟩ := List.forall_mem_cons.mp (h_cons ▸ h_canonical)
  have h_first : ∀ i, serializeField ext a (buff.drop (i * a.width)) = serializeField ext a
      (slice buff ((layout env).address ⟨0, a.width, a.width, a.width⟩ i) a.width) := fun i => by
    rw [← serializeField_take]
    simp [slice, layout, Layout.address, h_format]
  have h_line : ∀ i, storageColumnRow env ext buff i env.schema = do
      let field ← serializeField ext a (buff.drop (i * a.width))
      let fields ← joinFields ext schema ((layout env).readRow (columns schema a.width) i buff)
      return field ++ fields ++ [newline] := fun i => by
    rw [h_cons, storageColumnRow, h_size, storageCells_eq h_format buff i schema h_rest]
  exact stores_iff.mpr (rows_of_lines (storageColumnRows env ext buff) (fun _ => rfl)
    (fun _ _ => rfl)
    (fun i => storageLine_eq (.inr h_format) cells buff i h_cons (h_first i) (h_line i)) n 0)

/-- **The tester writes what the sink writes**: for every buffer in one of the two formats of a
table, the text of `Tester::storageThread` is that of `CsvSink::serialize` if the texts of all its
doubles have room in an array of 20 characters, and otherwise it writes behind the end of it. -/
theorem storageText_eq_tableBytes (h_schema : env.schema ≠ [])
    (h_canonical : ∀ a ∈ env.schema, a.Canonical) {x : BuffWithId}
    (h_env : x.iformat = env.iformat) (h_format : x.iformat = 1 ∨ x.iformat = 2)
    (cells : ℕ → ℕ → List UInt8) :
    (TextFits env ext x.buff x.totalTuples →
        storageText env ext x = some (tableBytes env ext cells x.buff x.totalTuples)) ∧
      (¬ TextFits env ext x.buff x.totalTuples → storageText env ext x = none) := by
  rcases h_format with h_one | h_two
  · rw [storageText, if_pos h_one]
    exact storageRows_stores h_schema (h_env.symm.trans h_one) cells x.buff x.totalTuples
  · rw [storageText, if_neg (by omega), if_pos h_two]
    exact storageColumnRows_stores h_schema h_canonical (h_env.symm.trans h_two) cells x.buff
      x.totalTuples

/-- A buffer with two tuples of an integer and a double, and one with a number of 17 digits. -/
theorem storageText_doubles :
    storageText { testEnv with schema := [⟨.int, 4⟩, ⟨.double, 8⟩] }
        { decoders := storingDecoders, formatDouble := printDouble }
        ⟨0, 1, 2, 24, [7, 0, 0, 0, 0, 0, 0, 0, 0, 0, 0xf8, 0x3f,
          8, 0, 0, 0, 0, 0, 0, 0, 0, 0, 0xd0, 0xbf]⟩
      = some [55, 44, 49, 46, 53, 48, newline, 56, 44, 45, 48, 46, 50, 53, newline] ∧
    storageText { testEnv with schema := [⟨.int, 4⟩, ⟨.double, 8⟩] }
        { decoders := storingDecoders, formatDouble := printDouble }
        ⟨0, 1, 1, 12, [7, 0, 0, 0, 0, 0x80, 0xe0, 0x37, 0x79, 0xc3, 0x41, 0x43]⟩ = none := by
  have h := fun x => @storageText_eq_tableBytes
    { testEnv with schema := [⟨.int, 4⟩, ⟨.double, 8⟩] }
    { decoders := storingDecoders, formatDouble := printDouble } (by decide) (by decide) x
  constructor
  · refine ((h _ rfl (.inl rfl) fun _ _ => []).1 (by decide +kernel)).trans ?_
    decide +kernel
  · exact (h _ rfl (.inl rfl) fun _ _ => []).2 (by decide +kernel)

/-! ### The files of all threads -/

/-- The texts of the buffers follow one another. -/
theorem storageThread_eq {text : BuffWithId → List UInt8} {xs : List BuffWithId}
    (h : ∀ x ∈ xs, storageText env ext x = some (text x)) :
    storageThread env ext xs = some (xs.map text).flatten := by
  induction xs with
  | nil => rfl
  | cons x xs ih =>
    obtain ⟨h_x, h_xs⟩ := List.forall_mem_cons.mp h
    rw [storageThread, h_x, ih h_xs]
    rfl

/-- The cells of all tuples are in the bytes that the header announces. -/
def Chunk.Whole (env : RuntimeEnv) (c : Chunk) : Prop :=
  if env.iformat = 1 then c.totalTuples * totalRowSize env ≤ c.data.length
  else c.totalTuples ≤ env.tuplesPerBuffer ∧ env.tuplesPerBuffer * totalRowSize env ≤ c.data.length

instance (c : Chunk) : Decidable (c.Whole env) :=
  inferInstanceAs (Decidable (if env.iformat = 1
    then c.totalTuples * totalRowSize env ≤ c.data.length
    else c.totalTuples ≤ env.tuplesPerBuffer ∧
      env.tuplesPerBuffer * totalRowSize env ≤ c.data.length))

/-- The tuples are read from these bytes. -/
theorem Chunk.Whole.readRow_take {x : BuffWithId} (h : x.chunk.Whole env) {i : ℕ}
    (hi : i < x.totalTuples) : (layout env).readRow (columns env.schema 0) i (x.buff.take x.totalSize)
      = (layout env).readRow (columns env.schema 0) i x.buff := by
  refine Layout.readRow_take (fun c hc => ?_) x.buff
  have h_announced : (x.buff.take x.totalSize).length ≤ x.totalSize := List.length_take_le _ _
  have h_holds := holds_columns env c hc
  by_cases h_format : env.iformat = 1
  · have h_size : x.totalTuples * totalRowSize env ≤ (x.buff.take x.totalSize).length := by
      rwa [Whole, if_pos h_format] at h
    have h_row : (layout env).rowMajor = true := by simp [layout, h_format]
    exact (h_holds.address_add_le_of_rowMajor h_row hi).trans (h_size.trans h_announced)
  · rw [Whole, if_neg h_format] at h
    obtain ⟨h_tuples, h_size⟩ := h
    exact (h_holds.address_add_le (hi.trans_le h_tuples)).trans (h_size.trans h_announced)

/-- **The files have what the server sends**: when the threads of the tester have exited, the texts
of the buffers in all files are the lines of the tuples the server sends. -/
theorem storage_sent (h_options : Options env) (h_connected : Connected env ext)
    (h_receives : Receives env ext) (h_schema : env.schema ≠ [])
    (h_canonical : ∀ a ∈ env.schema, a.Canonical) (h_format : env.iformat = 1 ∨ env.iformat = 2)
    (h_whole : ∀ c ∈ sent env ext, c.Whole env)
    (h_fits : ∀ c ∈ sent env ext, TextFits env ext c.data c.totalTuples)
    (cells : ℕ → ℕ → List UInt8) {s : State (testMachine env ext)}
    (h_run : Reachable (testMachine env ext) never (testInitial env ext) s)
    (h_exited : ∀ i, (s.thread ⟨2, i⟩).Exited) :
    ∃ texts : ℕ → List (List UInt8),
      (∀ i < env.writeParallelism,
        storageThread env ext (s.mem.world.returned i) = some (texts i).flatten) ∧
      ∑ i ∈ Finset.range env.writeParallelism, (texts i : Multiset (List UInt8))
        = (sent env ext).map fun c => tableBytes env ext cells c.data c.totalTuples := by
  have h_sent := handedOut_eq h_options h_connected h_receives h_run h_exited
  let text : BuffWithId → List UInt8 := fun x => tableBytes env ext cells x.buff x.totalTuples
  -- a buffer that has been handed out is one the server has sent
  have h_mem : ∀ i < env.writeParallelism, ∀ x ∈ s.mem.world.returned i, x.chunk ∈ sent env ext :=
    fun i hi x hx => h_sent ▸ mem_handedOut (h_options.legacy ▸ hi) hx
  have h_text : ∀ i < env.writeParallelism, ∀ x ∈ s.mem.world.returned i,
      storageText env ext x = some (text x) := by
    intro i hi x hx
    have h_env : x.iformat = env.iformat := iformat_of_mem_sent (h_mem i hi x hx)
    refine (storageText_eq_tableBytes h_schema h_canonical h_env (h_env ▸ h_format) cells).1 ?_
    intro j hj
    rw [← (h_whole _ (h_mem i hi x hx)).readRow_take hj]
    exact h_fits _ (h_mem i hi x hx) j hj
  refine ⟨fun i => (s.mem.world.returned i).map text, fun i hi => ?_, ?_⟩
  · exact storageThread_eq (h_text i hi)
  · rw [← h_sent, map_handedOut, ← h_options.legacy]
    refine Finset.sum_congr rfl fun i hi => congrArg _ (List.map_congr_left fun x hx => ?_)
    have h_whole_x := h_whole _ (h_mem i (h_options.legacy ▸ Finset.mem_range.mp hi) x hx)
    change (List.range x.totalTuples).flatMap _ = (List.range x.totalTuples).flatMap _
    refine List.flatMap_congr fun j hj => ?_
    rw [rowBytes_eq_lineOf, rowBytes_eq_lineOf, rowCells, rowCells, if_pos h_format,
      if_pos h_format]
    exact congrArg _ (h_whole_x.readRow_take (List.mem_range.mp hj)).symm

end Text

/-- The files of the two threads. -/
theorem storage_sent_testEnv :
    ∃ (s : State (testMachine testEnv (zstdStream 2))) (texts : ℕ → List (List UInt8)),
      Reachable (testMachine testEnv (zstdStream 2)) never (testInitial testEnv (zstdStream 2)) s ∧
      (s.mem.world.returned 0).map BuffWithId.id = [1] ∧
      (∀ i < 2, storageThread testEnv (zstdStream 2) (s.mem.world.returned i)
        = some (texts i).flatten) ∧
      ∑ i ∈ Finset.range 2, (texts i : Multiset (List UInt8)) = {[55, newline], [55, newline]} := by
  obtain ⟨s, h_run, ⟨h_returned, -⟩, h_exited⟩ := exists_testRun
  obtain ⟨texts, h_files, h_sum⟩ := storage_sent options_testEnv (fun _ _ => rfl) (receives_testEnv 2)
    (by decide) (by decide) (.inl rfl) (by rw [sent_testEnv]; decide +kernel)
    (by rw [sent_testEnv]; decide +kernel) (fun _ _ => []) h_run fun i => h_exited ⟨2, i⟩
  refine ⟨s, texts, h_run, h_returned, h_files, h_sum.trans ?_⟩
  rw [sent_testEnv]
  decide +kernel

end Xdbc.Client
