import Xdbc.Server.Values
import Xdbc.Client.TableText

/-!
# From lines to lines

`deserializeCSV` makes cells of the lines of a CSV file, and `CsvSink::serialize` makes lines of the
cells. They compute the places of the cells in different ways, the server from the sizes that are
declared in the schema and the client from the widths of the types. Where the two agree, the cells
of a line are read back and serialized to the line again (`serializeAttribute_cell`, `lineOf_cells`),
in row and in column format.

The lines arrive in the output files if they take one output buffer of the client, and otherwise not
(`roundTrips_iff`).
-/

namespace Xdbc

open Bytes Pipeline

/-! ### Fields -/

section Fields

variable (extS : Server.External) (extC : Client.External)

/-- The client's text for a field is what the server reads: an integer in canonical form, a double
that is printed as it was written, one character, or a string for which there is room. -/
def CanonicalField (a : SchemaAttribute) (field : List UInt8) : Prop :=
  match a.tpe with
  | .int => ∃ z : ℤ, -2 ^ 31 ≤ z ∧ z < 2 ^ 31 ∧ field = printInt z
  | .double => ∃ x, extS.doubleFromChars field = some x ∧ extC.formatDouble x = field
  | .char => field.length = 1
  | .string => field.length ≤ a.size

/-- A field of a CSV file. -/
structure CsvField (a : SchemaAttribute) (field : List UInt8) : Prop where
  comma : Client.comma ∉ field
  newline : newline ∉ field
  nul : (0 : UInt8) ∉ field
  canonical : CanonicalField extS extC a field

variable {extS extC} {a : SchemaAttribute} {field : List UInt8}

/-- **The cell of a field is serialized to the field.** -/
theorem CsvField.serializeAttribute_cell (h : CsvField extS extC a field) (delimiter : UInt8) :
    Client.serializeAttribute extC a (Server.cell extS a field) delimiter
      = field ++ [delimiter] := by
  obtain ⟨-, -, h_nul, h_canonical⟩ := h
  obtain ⟨tpe, size⟩ := a
  cases tpe with
  | int =>
    obtain ⟨z, h_lo, h_hi, rfl⟩ := h_canonical
    simp only [Client.serializeAttribute, Server.cell]
    rw [fromChars_printInt h_lo h_hi, Option.getD_some,
      List.take_of_length_le (length_int32Bytes z).le, int32OfBytes_int32Bytes h_lo h_hi]
  | double =>
    obtain ⟨x, h_parse, h_print⟩ := h_canonical
    have h_word : x.toNat % 256 ^ 8 = x.toNat := Nat.mod_eq_of_lt x.toNat_lt
    simp only [Client.serializeAttribute, Server.cell]
    rw [h_parse, Option.getD_some, List.take_of_length_le (Server.length_doubleBytes x).le,
      Server.doubleBytes, ofLeBytes_leBytes, h_word, UInt64.ofNat_toNat, h_print]
  | char =>
    obtain ⟨c, rfl⟩ := List.length_eq_one_iff.mp h_canonical
    rfl
  | string =>
    have h_fits : field.length ≤ size := h_canonical
    simp only [Client.serializeAttribute, Server.cell, SchemaAttribute.width]
    rw [strnlen_padded h_nul h_fits, List.take_left]

/-- It is well formed for the server. -/
theorem CsvField.wellFormed (h : CsvField extS extC a field) (h_size : a.Canonical) :
    Server.WellFormedField Server.csvText a field := by
  obtain ⟨h_comma, h_newline, h_nul, h_canonical⟩ := h
  refine ⟨h_comma, h_newline, h_nul, h_size.1.ge, ?_⟩
  obtain ⟨tpe, size⟩ := a
  cases tpe with
  | int => trivial
  | double => trivial
  | char => exact h_canonical
  | string => exact h_canonical

end Fields

/-! ### Rows -/

section Rows

variable (extS : Server.External) (extC : Client.External)

/-- The fields of a line of the CSV file, one for each attribute. -/
def CsvRow (schema : List SchemaAttribute) (fields : List (List UInt8)) : Prop :=
  List.Forall₂ (CsvField extS extC) schema fields

variable {extS extC} {schema : List SchemaAttribute} {fields : List (List UInt8)}

theorem CsvRow.field (h : CsvRow extS extC schema fields) {j : ℕ} {a : SchemaAttribute}
    {field : List UInt8} (ha : schema[j]? = some a) (hf : fields[j]? = some field) :
    CsvField extS extC a field := by
  obtain ⟨h_a, rfl⟩ := List.getElem?_eq_some_iff.mp ha
  obtain ⟨h_f, rfl⟩ := List.getElem?_eq_some_iff.mp hf
  exact h.get h_a h_f

/-- **The cells of a line are serialized to the line.** -/
theorem lineOf_cells (h : CsvRow extS extC schema fields) (h_ne : schema ≠ []) :
    Client.lineOf extC schema (Server.cells extS schema fields)
      = Server.rowText Server.csvText fields := by
  induction h with
  | nil => exact absurd rfl h_ne
  | @cons a field schema fields h_field h_fields ih =>
    have h_cells : Server.cells extS (a :: schema) (field :: fields)
        = Server.cell extS a field :: Server.cells extS schema fields := rfl
    rw [h_cells, Client.lineOf, h_field.serializeAttribute_cell]
    cases h_fields with
    | nil => simp [Client.lineOf, Server.rowText, Client.delimiterBefore, List.intercalate]
    | @cons b next schema fields h_next h_fields =>
      rw [ih (List.cons_ne_nil _ _)]
      simp [Server.rowText, Client.delimiterBefore, List.intercalate, Client.comma,
        Server.csvText]

/-- The server reads the line as it should. -/
theorem CsvRow.wellFormed (h : CsvRow extS extC schema fields) (h_ne : schema ≠ [])
    (h_sizes : ∀ a ∈ schema, a.Canonical) : Server.WellFormedRow Server.csvText schema fields := by
  refine ⟨h_ne, ?_⟩
  clear h_ne
  induction h with
  | nil => exact .nil
  | cons h_field _ ih =>
    obtain ⟨h_size, h_sizes⟩ := List.forall_mem_cons.mp h_sizes
    exact .cons (h_field.wellFormed h_size) (ih h_sizes)

end Rows

/-! ### The layouts -/

section Layouts

/-- Server and client are started with the same schema, size of the buffers and format. -/
structure SameSettings (S : Server.RuntimeEnv) (C : Client.RuntimeEnv) : Prop where
  schema : C.schema = S.schema
  bufferSize : C.bufferSize = S.bufferSize
  iformat : C.iformat = S.iformat

variable {S : Server.RuntimeEnv} {C : Client.RuntimeEnv}

theorem SameSettings.tuplesPerBuffer (h : SameSettings S C) :
    C.tuplesPerBuffer = S.tuplesPerBuffer := by
  rw [Client.RuntimeEnv.tuplesPerBuffer, h.schema, h.bufferSize, Server.RuntimeEnv.tuplesPerBuffer]

/-- If the declared sizes are those of the types, the columns are the same. -/
theorem columns_eq {schema : List SchemaAttribute} (h_sizes : ∀ a ∈ schema, a.Canonical)
    (off : ℕ) : Client.columns schema off = Server.columns Server.csvText schema off := by
  induction schema generalizing off with
  | nil => rfl
  | cons a schema ih =>
    obtain ⟨h_size, h_sizes⟩ := List.forall_mem_cons.mp h_sizes
    rw [Client.columns, Server.columns, ih h_sizes, h_size.1]
    rfl

theorem sum_width_eq {schema : List SchemaAttribute} (h_sizes : ∀ a ∈ schema, a.Canonical) :
    (schema.map SchemaAttribute.width).sum = tupleSize schema := by
  rw [tupleSize]
  exact congrArg List.sum (List.map_congr_left fun a ha => ((h_sizes a ha).1).symm)

/-- **Server and client lay out a buffer in the same way.** -/
theorem SameSettings.layout (h : SameSettings S C) (h_sizes : ∀ a ∈ S.schema, a.Canonical) :
    Client.layout C = Server.layout S := by
  have h_tuple : Client.totalRowSize C = S.tupleSize := by
    rw [Client.totalRowSize, h.schema, sum_width_eq h_sizes, Server.RuntimeEnv.tupleSize]
  rw [Client.layout, Server.layout, h_tuple, h.tuplesPerBuffer, h.iformat]

end Layouts

/-! ### Batches -/

section Batches

variable (S : Server.RuntimeEnv) (extS : Server.External) (C : Client.RuntimeEnv)
  (extC : Client.External)

/-- The offset of column `j` in a tuple. -/
def columnOffset (schema : List SchemaAttribute) (j : ℕ) : ℕ :=
  ((schema.take j).map SchemaAttribute.size).sum

/-- The address of the cell of row `i` in column `j`, which has attribute `a`. -/
def cellOf (a : SchemaAttribute) (i j : ℕ) : ℕ :=
  Server.cellAddress S (Server.csvText.stride a) i (columnOffset S.schema j)

/-- The text of a batch. -/
def batchText (rows : List (List (List UInt8))) : List UInt8 :=
  rows.flatMap (Server.rowText Server.csvText)

/-- The buffer `x` of the client holds what the buffer `c` of the server announces. -/
structure Carries (c x : Buffer) : Prop where
  tuples : x.header.totalTuples = c.header.totalTuples
  format : x.header.intermediateFormat = c.header.intermediateFormat
  data : x.payload.take c.header.totalSize = c.data

/-- The batch makes the round trip: its cells are apart, inside the payload of the output buffer `c`
of `deserializeCSV`, and hold the fields; `CsvSink::serialize` finds the fields in `x`, comes to the
end of it, and its write threads find the lines. -/
structure RoundTrips (rows : List (List (List UInt8))) (c x : Buffer) : Prop where
  inside : ∀ i < rows.length, ∀ j a, S.schema[j]? = some a →
    cellOf S a i j + a.width ≤ S.payloadSize
  disjoint : ∀ i < rows.length, ∀ i' < rows.length, ∀ j j' a a', S.schema[j]? = some a →
    S.schema[j']? = some a' → (i, j) ≠ (i', j') →
      cellOf S a i j + a.width ≤ cellOf S a' i' j' ∨ cellOf S a' i' j' + a'.width ≤ cellOf S a i j
  written : ∀ i j a fields field, rows[i]? = some fields → S.schema[j]? = some a →
    fields[j]? = some field → slice c.data (cellOf S a i j) a.width = Server.cell extS a field
  fields : ∀ i j a fields field, rows[i]? = some fields → S.schema[j]? = some a →
    fields[j]? = some field → ∀ cells delimiter,
      Client.serializeAttribute extC a (Client.dataPtr C extC cells x.payload i j
        (columnOffset C.schema j) (C.tuplesPerBuffer * columnOffset C.schema j) a.width) delimiter
        = field ++ [delimiter]
  serialized : ∃ (m₀ m : Memory Buffer Client.Files) (es : List (Event Buffer))
      (reads : List (ℕ × Buffer)) (contents : List Buffer),
    Relay 4 Client.Ser.held (Client.serialize C extC) 3 .popIn m₀ es reads .popIn m ∧
      Event.arrivals 2 es = [some x] ∧ Takes 0 (Client.Full C) es ∧ ReadAll 3 es reads contents
  text : ∀ (m₀ m : Memory Buffer Client.Files) es reads contents,
    Relay 4 Client.Ser.held (Client.serialize C extC) 3 .popIn m₀ es reads .popIn m →
      Event.arrivals 2 es = [some x] → Takes 0 (Client.Full C) es → ReadAll 3 es reads contents →
        contents.flatMap Buffer.data = batchText rows

/-- The lines take one output buffer of the client: no line is preceded by a flush, and they end
inside the payload. -/
structure OneBatch (rows : List (List (List UInt8))) : Prop where
  noFlush : ∀ i < rows.length,
    (batchText (rows.take i)).length + Client.maxTupleSize C ≤ C.bufferSizeInBytes
  room : (batchText rows).length ≤ C.payloadSize

variable {S extS C extC} {rows : List (List (List UInt8))} {c x : Buffer}

/-- The column with a number. -/
theorem getElem?_columns {schema : List SchemaAttribute} {j : ℕ} {a : SchemaAttribute}
    (h : schema[j]? = some a) (off : ℕ) :
    (Server.columns Server.csvText schema off)[j]?
      = some ⟨off + columnOffset schema j, a.size, Server.csvText.stride a, a.width⟩ := by
  induction schema generalizing j off with
  | nil => cases h
  | cons b schema ih =>
    cases j with
    | zero =>
      obtain rfl := Option.some.inj h
      rfl
    | succ j =>
      rw [List.getElem?_cons_succ] at h
      rw [Server.columns, List.getElem?_cons_succ, ih h, columnOffset, columnOffset,
        List.take_succ_cons, List.map_cons, List.sum_cons, Nat.add_assoc]

/-- Its cells are in the place that `deserializeCSV` computes. -/
theorem address_eq_cellOf (a : SchemaAttribute) (i j : ℕ) :
    (Server.layout S).address ⟨columnOffset S.schema j, a.size, Server.csvText.stride a, a.width⟩ i
      = cellOf S a i j :=
  Server.address_layout Server.csvText S _ _ _ _ a

theorem mem_columns {j : ℕ} {a : SchemaAttribute} (h : S.schema[j]? = some a) :
    (⟨columnOffset S.schema j, a.size, Server.csvText.stride a, a.width⟩ : Column)
      ∈ Server.columns Server.csvText S.schema 0 := by
  have h_get := getElem?_columns h 0
  rw [Nat.zero_add] at h_get
  exact List.mem_of_getElem? h_get

/-- **The cells are inside the payload.** -/
theorem cellOf_add_le (h_sizes : ∀ a ∈ S.schema, a.Canonical) {i j : ℕ}
    (hi : i < S.tuplesPerBuffer) {a : SchemaAttribute} (ha : S.schema[j]? = some a) :
    cellOf S a i j + a.width ≤ S.payloadSize := by
  have h_holds := Server.holds_columns (fun a ha => (h_sizes a ha).1.ge) _ (mem_columns ha)
  rw [← address_eq_cellOf]
  exact h_holds.address_add_le hi

/-- **The cells are apart.** -/
theorem cellOf_disjoint (h_sizes : ∀ a ∈ S.schema, a.Canonical) {i i' j j' : ℕ}
    (hi : i < S.tuplesPerBuffer) (hi' : i' < S.tuplesPerBuffer) {a a' : SchemaAttribute}
    (ha : S.schema[j]? = some a) (ha' : S.schema[j']? = some a') (h_ne : (i, j) ≠ (i', j')) :
    cellOf S a i j + a.width ≤ cellOf S a' i' j' ∨ cellOf S a' i' j' + a'.width ≤ cellOf S a i j := by
  have h_holds := Server.holds_columns (X := Server.csvText) (fun a ha => (h_sizes a ha).1.ge)
  rw [← address_eq_cellOf, ← address_eq_cellOf]
  refine (h_holds _ (mem_columns ha)).disjoint (h_holds _ (mem_columns ha')) hi hi' ?_
  -- two rows of one column, or two columns
  by_cases h_j : j = j'
  · subst h_j
    obtain rfl : a = a' := Option.some.inj (ha.symm.trans ha')
    exact .inr ⟨fun h_i => h_ne (h_i ▸ rfl), rfl⟩
  · left
    have h_pairwise := List.pairwise_iff_getElem.mp
      (Server.columns_pairwise Server.csvText S.schema 0)
    have h_col := getElem?_columns ha 0
    have h_col' := getElem?_columns ha' 0
    rw [Nat.zero_add] at h_col h_col'
    obtain ⟨h_lt, h_col⟩ := List.getElem?_eq_some_iff.mp h_col
    obtain ⟨h_lt', h_col'⟩ := List.getElem?_eq_some_iff.mp h_col'
    rw [← h_col, ← h_col']
    rcases Nat.lt_or_gt_of_ne h_j with h_before | h_behind
    · exact h_pairwise j j' h_lt h_lt' h_before
    · exact (h_pairwise j' j h_lt' h_lt h_behind).symm

/-- A buffer of the server with the rows as a table. -/
abbrev HoldsBatch (S : Server.RuntimeEnv) (extS : Server.External)
    (rows : List (List (List UInt8))) (c : Buffer) : Prop :=
  Server.HoldsTable Server.csvText S (Server.cells extS S.schema) rows c

/-- A row of a table. -/
theorem readRow_of_cellRows {block : List UInt8}
    (h : Server.cellRows Server.csvText S rows.length block = rows.map (Server.cells extS S.schema))
    {i : ℕ} {fields : List (List UInt8)} (hi : rows[i]? = some fields) :
    (Server.layout S).readRow (Server.columns Server.csvText S.schema 0) i block
      = Server.cells extS S.schema fields := by
  obtain ⟨h_lt, rfl⟩ := List.getElem?_eq_some_iff.mp hi
  have h_row := congrArg (·[i]?) h
  simp only [Server.cellRows, List.getElem?_map, List.getElem?_range h_lt,
    List.getElem?_eq_getElem h_lt, Option.map_some, Option.some.injEq] at h_row
  exact h_row

/-- What the client reads is what the server has written. -/
theorem readRow_eq (h_same : SameSettings S C) (h_format : S.iformat = 1 ∨ S.iformat = 2)
    (h_sizes : ∀ a ∈ S.schema, a.Canonical) (h_rows : rows.length ≤ S.tuplesPerBuffer)
    (h_holds : HoldsBatch S extS rows c) (h_carries : Carries c x) {i : ℕ}
    {fields : List (List UInt8)} (hi : rows[i]? = some fields) :
    (Client.layout C).readRow (Client.columns C.schema 0) i x.payload
      = Server.cells extS S.schema fields := by
  obtain ⟨h_tuples, h_size, h_room, -, h_cells⟩ := h_holds
  have h_width : ∀ a ∈ S.schema, a.width ≤ a.size := fun a ha => (h_sizes a ha).1.ge
  -- all cells are within the bytes that are announced
  have h_announced : S.iformat = 1 ∧ rows.length * S.tupleSize ≤ c.header.totalSize ∨
      S.tuplesPerBuffer * S.tupleSize ≤ c.header.totalSize := by
    rw [h_size]
    rcases h_format with h_one | h_two
    · exact .inl ⟨h_one, by rw [if_neg (by omega)]⟩
    · exact .inr (by rw [if_pos h_two])
  have h_take := Server.cellRows_take (X := Server.csvText) h_width h_rows h_announced x.payload
  rw [h_carries.data, h_cells] at h_take
  rw [h_same.layout h_sizes, h_same.schema, columns_eq h_sizes, readRow_of_cellRows h_take.symm hi]

/-- A cell of a row that is read. -/
theorem slice_eq_cell {t : Layout} {schema : List SchemaAttribute} {block : List UInt8} {i j : ℕ}
    {fields : List (List UInt8)} {a : SchemaAttribute} {field : List UInt8}
    (h : t.readRow (Server.columns Server.csvText schema 0) i block
      = Server.cells extS schema fields) (ha : schema[j]? = some a) (hf : fields[j]? = some field) :
    slice block (t.address ⟨columnOffset schema j, a.size, Server.csvText.stride a, a.width⟩ i) a.width
      = Server.cell extS a field := by
  have h_get := congrArg (·[j]?) h
  have h_col := getElem?_columns ha 0
  rw [Nat.zero_add] at h_col
  simp only [Layout.readRow, List.getElem?_map, h_col, Server.cells, List.getElem?_zipWith, ha, hf,
    Option.map_some, Option.some.injEq] at h_get
  exact h_get

/-- **The text that the client makes of the cells are the lines.** -/
theorem tableText_eq (h_same : SameSettings S C) (h_format : S.iformat = 1 ∨ S.iformat = 2)
    (h_sizes : ∀ a ∈ S.schema, a.Canonical) (h_ne : S.schema ≠ [])
    (h_csv : ∀ fields ∈ rows, CsvRow extS extC S.schema fields)
    (h_rows : rows.length ≤ S.tuplesPerBuffer) (h_holds : HoldsBatch S extS rows c)
    (h_carries : Carries c x) {k : ℕ} (hk : k ≤ rows.length) :
    Client.tableText C extC x k = batchText (rows.take k) := by
  induction k with
  | zero => rfl
  | succ k ih =>
    have h_get : rows[k]? = some rows[k] := List.getElem?_eq_getElem hk
    have h_line := lineOf_cells (h_csv _ (List.getElem_mem hk)) h_ne
    rw [Client.tableText_succ, ih (by omega),
      readRow_eq h_same h_format h_sizes h_rows h_holds h_carries h_get, h_same.schema, h_line,
      List.take_succ_eq_append_getElem hk, batchText, batchText, List.flatMap_append,
      List.flatMap_singleton]

/-- The lines take one buffer if the text of the table does. -/
theorem oneBatch_iff (h_same : SameSettings S C) (h_format : S.iformat = 1 ∨ S.iformat = 2)
    (h_sizes : ∀ a ∈ S.schema, a.Canonical) (h_ne : S.schema ≠ [])
    (h_csv : ∀ fields ∈ rows, CsvRow extS extC S.schema fields)
    (h_rows : rows.length ≤ S.tuplesPerBuffer) (h_holds : HoldsBatch S extS rows c)
    (h_carries : Carries c x) : Client.OneBuffer C extC x ↔ OneBatch C rows := by
  have h_tuples : x.header.totalTuples = rows.length := h_carries.tuples.trans h_holds.tuples
  have h_text : ∀ {k}, k ≤ rows.length → Client.tableText C extC x k = batchText (rows.take k) :=
    tableText_eq h_same h_format h_sizes h_ne h_csv h_rows h_holds h_carries
  have h_all := h_text le_rfl
  rw [List.take_length] at h_all
  constructor
  · rintro ⟨h_noFlush, h_room⟩
    rw [h_tuples] at h_noFlush h_room
    refine ⟨fun i hi => ?_, h_all ▸ h_room⟩
    rw [← h_text hi.le]
    exact h_noFlush i hi
  · rintro ⟨h_noFlush, h_room⟩
    refine ⟨fun i hi => ?_, ?_⟩
    · rw [h_tuples] at hi
      rw [h_text hi.le]
      exact h_noFlush i hi
    · rw [h_tuples, h_all]
      exact h_room

/-- **One buffer makes the round trip** exactly if its lines take one output buffer. -/
theorem roundTrips_buffer_iff (h_same : SameSettings S C) (h_skip : C.skipSerializer = false)
    (h_format : S.iformat = 1 ∨ S.iformat = 2) (h_sizes : ∀ a ∈ S.schema, a.Canonical)
    (h_ne : S.schema ≠ []) (h_csv : ∀ fields ∈ rows, CsvRow extS extC S.schema fields)
    (h_rows : rows.length ≤ S.tuplesPerBuffer) (h_holds : HoldsBatch S extS rows c)
    (h_carries : Carries c x) : RoundTrips S extS C extC rows c x ↔ OneBatch C rows := by
  have h_format' : C.iformat = 1 ∨ C.iformat = 2 := by rw [h_same.iformat]; exact h_format
  have h_header : x.header.intermediateFormat = C.iformat := by
    rw [h_carries.format, h_holds.format, h_same.iformat]
  -- the text of the table is that of the rows
  have h_all : Client.tableText C extC x rows.length = batchText (rows.take rows.length) :=
    tableText_eq h_same h_format h_sizes h_ne h_csv h_rows h_holds h_carries le_rfl
  rw [List.take_length, ← h_holds.tuples, ← h_carries.tuples] at h_all
  rw [← oneBatch_iff h_same h_format h_sizes h_ne h_csv h_rows h_holds h_carries]
  constructor
  · intro h
    refine Client.oneBuffer_of_findsText h_skip h_format' h_header ?_
    intro m₀ m es reads contents h_run h_arrivals h_full h_read
    rw [h_all]
    exact h.text m₀ m es reads contents h_run h_arrivals h_full h_read
  · -- each conjunct of `RoundTrips` by the lemma about its part
    intro h_one
    refine ⟨fun i hi j a ha => ?_, fun i hi i' hi' j j' a a' ha ha' h_neq => ?_,
      fun i j a fields field hi ha hf => ?_, fun i j a fields field hi ha hf cells d => ?_, ?_, ?_⟩
    · exact cellOf_add_le h_sizes (hi.trans_le h_rows) ha
    · exact cellOf_disjoint h_sizes (hi.trans_le h_rows) (hi'.trans_le h_rows) ha ha' h_neq
    · rw [← address_eq_cellOf]
      exact slice_eq_cell (readRow_of_cellRows h_holds.cells hi) ha hf
    · have h_row := readRow_eq h_same h_format h_sizes h_rows h_holds h_carries hi
      rw [h_same.schema, columns_eq h_sizes] at h_row
      have h_slice := slice_eq_cell h_row ha hf
      rw [(h_sizes a (List.mem_of_getElem? ha)).1] at h_slice
      rw [← Client.serializeAttribute_take, Client.take_dataPtr h_format', h_same.schema]
      refine (congrArg (Client.serializeAttribute extC a · d) h_slice).trans ?_
      exact (CsvRow.field (h_csv fields (List.mem_of_getElem? hi)) ha hf).serializeAttribute_cell d
    · obtain ⟨es, reads, m, contents, h_end⟩ := h_one.exists_run h_skip h_format' h_header
      exact ⟨_, m, es, reads, contents, h_end⟩
    · have h_finds := (Client.writesTable_of_oneBuffer h_skip h_format' h_header h_one).findsText
      rw [Client.FindsText, h_all] at h_finds
      exact h_finds

/-- Without columns a buffer has room for no row. -/
theorem schema_ne_nil (h_pos : 1 ≤ S.tuplesPerBuffer) : S.schema ≠ [] := by
  intro h_nil
  rw [Server.RuntimeEnv.tuplesPerBuffer, tuplesPerBuffer, h_nil, tupleSize, List.map_nil,
    List.sum_nil, Nat.div_zero] at h_pos
  omega

/-- A run of `deserializeCSV` over the lines of a batch. -/
structure Deserializes {σ : Type} (S : Server.RuntimeEnv) (extS : Server.External)
    (rows : List (List (List UInt8))) (m₀ m : Memory Buffer σ) (es : List (Event Buffer))
    (l : Server.Deser) : Prop where
  run : Solo 4 Server.Deser.held (Server.deserializeCSV S extS) Server.Deser.TakesMarker .start m₀ es
    l m
  takes : Server.TakesRows Server.csvText S rows es l

variable (S extS C extC rows) in
/-- **The batch goes from lines to lines.** The server reads it to the end, in every run it stops only
there, and waits only for input; then the batch is in one output buffer, unless it is empty, and
makes the round trip to a client that gets this buffer. -/
structure BatchRoundTrips : Prop where
  reads : ∃ (m₀ m : Memory Buffer Unit) (es : List (Event Buffer)) (o : Option ℤ),
    Deserializes S extS rows m₀ m es (.done o)
  progress : ∀ {σ : Type} {m₀ m : Memory Buffer σ} {es : List (Event Buffer)} {l : Server.Deser},
    Deserializes S extS rows m₀ m es l →
      Lowers (· = 1) Server.Deser.rank l m (Server.deserializeCSV S extS l) ∧
        ((Server.deserializeCSV (σ := σ) S extS l).Stops → ∃ o, l = .done o)
  single : ∀ {σ : Type} {m₀ m : Memory Buffer σ} {es : List (Event Buffer)} {o : Option ℤ},
    Deserializes S extS rows m₀ m es (.done o) →
      (Event.outputs 2 es).length = if rows = [] then 0 else 1
  trips : ∀ {σ : Type} {m₀ m : Memory Buffer σ} {es : List (Event Buffer)} {o : Option ℤ},
    Deserializes S extS rows m₀ m es (.done o) →
      ∀ c ∈ Event.outputs 2 es, ∀ x, Carries c x → RoundTrips S extS C extC rows c x

/-- A thread that has read a batch has pushed it in one buffer. -/
theorem Deserializes.outputs {σ : Type} {m₀ m : Memory Buffer σ} {es : List (Event Buffer)}
    {o : Option ℤ} (h : Deserializes S extS rows m₀ m es (.done o))
    (h_skip : S.skipDeserializer = false) (h_format : S.iformat = 1 ∨ S.iformat = 2)
    (h_sizes : ∀ a ∈ S.schema, a.Canonical) (h_pos : 1 ≤ S.tuplesPerBuffer)
    (h_csv : ∀ fields ∈ rows, CsvRow extS extC S.schema fields)
    (h_rows : rows.length ≤ S.tuplesPerBuffer) :
    (rows = [] → Event.outputs 2 es = []) ∧
      (rows ≠ [] → ∃ c, Event.outputs 2 es = [c] ∧ HoldsBatch S extS rows c) := by
  -- the rows are well formed, so the thread regroups them
  have h_good : ∀ fields ∈ rows, Server.WellFormedRow Server.csvText S.schema fields :=
    fun fields hf => (h_csv fields hf).wellFormed (schema_ne_nil h_pos) h_sizes
  obtain ⟨batches, h_cut, h_all⟩ := h.takes.exists_cut h_format (by simpa [Server.csvText] using
    h_format) (by simp [h_skip]) (fun a ha => (h_sizes a ha).1.ge) h_pos
    (fun fields hf => (h_good fields hf).plain) h.run
  constructor
  · -- no row, no batch
    rintro rfl
    have h_none : batches.length ≤ ([] : List (List (List (List UInt8)))).length :=
      h_cut.length_le (Nat.zero_le _)
    have h_nil : batches = [] := List.eq_nil_of_length_eq_zero (Nat.le_zero.mp h_none)
    have h_holds := h_cut.holds
    rw [h_nil] at h_holds
    exact List.forall₂_nil_left_iff.mp h_holds
  · intro h_some
    -- all rows fit into a single batch
    obtain ⟨c, h_out, h_tuples, h_size, h_room, h_named, h_cells⟩ :=
      h_cut.exists_single h_rows h_some (h_all o rfl)
    refine ⟨c, h_out, h_tuples, h_size, h_room, h_named, h_cells.trans ?_⟩
    exact List.map_congr_left fun fields hf => (h_good fields hf).plainCells_eq extS

/-- **The round trip.** A batch of lines goes from lines to lines exactly if its lines take one output
buffer of the client, in row and in column format. -/
theorem roundTrips_iff (h_same : SameSettings S C) (h_deserializes : S.skipDeserializer = false)
    (h_serializes : C.skipSerializer = false) (h_format : S.iformat = 1 ∨ S.iformat = 2)
    (h_sizes : ∀ a ∈ S.schema, a.Canonical) (h_pos : 1 ≤ S.tuplesPerBuffer)
    (h_csv : ∀ fields ∈ rows, CsvRow extS extC S.schema fields)
    (h_rows : rows.length ≤ S.tuplesPerBuffer) :
    BatchRoundTrips S extS C extC rows ↔ OneBatch C rows := by
  have h_ne := schema_ne_nil h_pos
  have h_width : ∀ a ∈ S.schema, a.width ≤ a.size := fun a ha => (h_sizes a ha).1.ge
  have h_plain : ∀ fields ∈ rows, Server.PlainRow Server.csvText S.schema fields :=
    fun fields hf => ((h_csv fields hf).wellFormed h_ne h_sizes).plain
  have h_flushes : Server.csvText.flushes S.iformat = true := by simpa [Server.csvText] using h_format
  have h_run : ¬ (Server.csvText.skips ∧ S.skipDeserializer) := by simp [h_deserializes]
  obtain ⟨m₀, m, es, o, h_solo, h_takes⟩ := Server.exists_solo_done rows extS h_format h_flushes
    h_run h_width h_pos h_plain
  have h_buffer : ∀ {c x}, HoldsBatch S extS rows c → Carries c x →
      (RoundTrips S extS C extC rows c x ↔ OneBatch C rows) := fun h_holds h_carries =>
    roundTrips_buffer_iff h_same h_serializes h_format h_sizes h_ne h_csv h_rows h_holds h_carries
  constructor
  · intro h
    by_cases h_some : rows = []
    · exact h_some ▸ ⟨fun i hi => absurd hi i.not_lt_zero, Nat.zero_le _⟩
    · -- the run that exists pushes a buffer, which the client may get as it is
      have h_reads : Deserializes S extS rows m₀ m es (.done o) := ⟨h_solo, h_takes⟩
      obtain ⟨c, h_out, h_holds⟩ := (h_reads.outputs h_deserializes h_format h_sizes h_pos h_csv
        h_rows).2 h_some
      have h_carries : Carries c c := ⟨rfl, rfl, rfl⟩
      exact (h_buffer h_holds h_carries).mp (h.trips h_reads c (by rw [h_out]; simp) c h_carries)
  · intro h_one
    refine ⟨⟨m₀, m, es, o, h_solo, h_takes⟩, fun h => ⟨?_, Server.Deser.exists_done_of_stops⟩,
      fun h => ?_, fun h c hc x h_carries => ?_⟩
    · exact (Server.deserializeText_regroups h_format h_flushes h_run h_width h_pos h.run
        h.takes.free (h.takes.exists_items extS h_plain).1).lowers h_format h_flushes h_run
    · obtain ⟨h_none, h_single⟩ := h.outputs h_deserializes h_format h_sizes h_pos h_csv h_rows
      split
      · next h_nil => rw [h_none h_nil, List.length_nil]
      · next h_some =>
        obtain ⟨c, h_out, -⟩ := h_single h_some
        rw [h_out, List.length_singleton]
    · obtain ⟨h_none, h_single⟩ := h.outputs h_deserializes h_format h_sizes h_pos h_csv h_rows
      have h_some : rows ≠ [] := fun h_nil => by
        rw [h_none h_nil] at hc
        cases hc
      obtain ⟨c', h_out, h_holds⟩ := h_single h_some
      rw [h_out, List.mem_singleton] at hc
      exact (h_buffer (hc ▸ h_holds) h_carries).mpr h_one

/-! ### Two batches -/

/-- An input buffer with the lines. -/
def textBuffer (rows : List (List (List UInt8))) : Buffer :=
  ⟨{ totalSize := (batchText rows).length }, batchText rows⟩

variable (S rows) in
/-- The thread has taken free buffers and the buffer with the lines, and is done. -/
def ReadsText (es : List (Event Buffer)) (l : Server.Deser) : Prop :=
  (∀ b ∈ Event.inputs 0 es, b.payload.length = S.payloadSize) ∧
    Event.inputs 1 es = [textBuffer rows] ∧ l = .done none

instance (es : List (Event Buffer)) (l : Server.Deser) : Decidable (ReadsText S rows es l) :=
  inferInstanceAs (Decidable (_ ∧ _ ∧ _))

variable (S extS rows) in
/-- A run over the lines. -/
theorem exists_deserializes (h_run : ((replay 4 Server.Deser.held (Server.deserializeCSV S extS)
      Server.Deser.TakesMarker 10 [0, 1, marker] [] .start (Server.poolWith S (batchText rows))).any
        fun r => decide (ReadsText S rows r.1 r.2.1)) = true) :
    ∃ es m, Deserializes S extS rows (Server.poolWith S (batchText rows)) m es (.done none) ∧
      Event.inputs 1 es = [textBuffer rows] := by
  obtain ⟨es, l, m, h_solo, h_free, h_in, rfl⟩ := exists_solo_of_replay 4 Server.Deser.held
    (Server.deserializeCSV S extS) Server.Deser.TakesMarker .start
    (Server.poolWith S (batchText rows)) 10 [0, 1, marker] (fun es l _ => ReadsText S rows es l) h_run
  have h_data : (textBuffer rows).data = batchText rows := List.take_length
  have h_lines : Server.HoldsLines Server.csvText rows (textBuffer rows) :=
    ⟨h_data, by rw [h_data]; rfl⟩
  refine ⟨es, m, ⟨h_solo, h_free, [rows], ?_, by simp, by simp⟩, h_in⟩
  rw [h_in]
  exact .cons h_lines .nil

/-- The settings of a server for a table with three columns. -/
def tripleServer (format : ℕ) : Server.RuntimeEnv :=
  { Server.smallEnv with
    bufferSize := 1, iformat := format, schema := [⟨.int, 4⟩, ⟨.string, 300⟩, ⟨.char, 1⟩] }

/-- The settings of a client for it. -/
def tripleClient (format : ℕ) : Client.RuntimeEnv :=
  { Client.smallEnv with
    bufferSize := 1, iformat := format, schema := [⟨.int, 4⟩, ⟨.string, 300⟩, ⟨.char, 1⟩] }

/-- The lines `-7,ab,x` and `12,,y`. -/
def twoTriples : List (List (List UInt8)) :=
  [[[45, 55], [97, 98], [120]], [[49, 50], [], [121]]]

theorem csvRow_twoTriples (extS : Server.External) (extC : Client.External) :
    ∀ fields ∈ twoTriples,
      CsvRow extS extC [⟨.int, 4⟩, ⟨.string, 300⟩, ⟨.char, 1⟩] fields := by
  intro fields hf
  rcases List.mem_pair.mp hf with rfl | rfl
  · exact .cons ⟨by decide, by decide, by decide, -7, by decide, by decide, by decide⟩
      (.cons ⟨by decide, by decide, by decide, Nat.le_of_ble_eq_true rfl⟩
        (.cons ⟨by decide, by decide, by decide, rfl⟩ .nil))
  · exact .cons ⟨by decide, by decide, by decide, 12, by decide, by decide, by decide⟩
      (.cons ⟨by decide, by decide, by decide, Nat.le_of_ble_eq_true rfl⟩
        (.cons ⟨by decide, by decide, by decide, rfl⟩ .nil))

/-- Two lines of three columns make the round trip in row format and in column format. -/
theorem roundTrips_twoTriples :
    (BatchRoundTrips (tripleServer 1) Server.emptyTable (tripleClient 1) (Client.zstdStream 0)
        twoTriples ∧
      ∃ es m c, Deserializes (tripleServer 1) Server.emptyTable twoTriples
          (Server.poolWith (tripleServer 1) (batchText twoTriples)) m es (.done none) ∧
        Event.outputs 2 es = [c] ∧ RoundTrips (tripleServer 1) Server.emptyTable (tripleClient 1)
          (Client.zstdStream 0) twoTriples c c) ∧
    BatchRoundTrips (tripleServer 2) Server.emptyTable (tripleClient 2) (Client.zstdStream 0)
        twoTriples ∧
      ∃ es m c, Deserializes (tripleServer 2) Server.emptyTable twoTriples
          (Server.poolWith (tripleServer 2) (batchText twoTriples)) m es (.done none) ∧
        Event.outputs 2 es = [c] ∧ RoundTrips (tripleServer 2) Server.emptyTable (tripleClient 2)
          (Client.zstdStream 0) twoTriples c c := by
  -- a run that can be computed, and the one buffer it sends
  have h_output : ∀ {f : ℕ}, BatchRoundTrips (tripleServer f) Server.emptyTable (tripleClient f)
      (Client.zstdStream 0) twoTriples → ((replay 4 Server.Deser.held (Server.deserializeCSV
        (tripleServer f) Server.emptyTable) Server.Deser.TakesMarker 10 [0, 1, marker] [] .start
        (Server.poolWith (tripleServer f) (batchText twoTriples))).any
          fun r => decide (ReadsText (tripleServer f) twoTriples r.1 r.2.1)) = true →
      ∃ es m c, Deserializes (tripleServer f) Server.emptyTable twoTriples
          (Server.poolWith (tripleServer f) (batchText twoTriples)) m es (.done none) ∧
        Event.outputs 2 es = [c] ∧ RoundTrips (tripleServer f) Server.emptyTable (tripleClient f)
          (Client.zstdStream 0) twoTriples c c := by
    intro f h h_run
    obtain ⟨es, m, h_reads, -⟩ := exists_deserializes _ _ _ h_run
    obtain ⟨c, h_out⟩ := List.length_eq_one_iff.mp (h.single h_reads)
    exact ⟨es, m, c, h_reads, h_out, h.trips h_reads c (by rw [h_out]; simp) c ⟨rfl, rfl, rfl⟩⟩
  -- row by row, then column by column
  have h_row := (roundTrips_iff (S := tripleServer 1) (C := tripleClient 1) ⟨rfl, rfl, rfl⟩ rfl rfl
    (.inl rfl) (by decide) (by decide) (csvRow_twoTriples Server.emptyTable (Client.zstdStream 0))
    (by decide)).mpr ⟨by decide +kernel, by decide +kernel⟩
  have h_column := (roundTrips_iff (S := tripleServer 2) (C := tripleClient 2) ⟨rfl, rfl, rfl⟩ rfl
    rfl (.inr rfl) (by decide) (by decide)
    (csvRow_twoTriples Server.emptyTable (Client.zstdStream 0)) (by decide)).mpr
    ⟨by decide +kernel, by decide +kernel⟩
  exact ⟨⟨h_row, h_output h_row (by decide +kernel)⟩, h_column, h_output h_column
    (by decide +kernel)⟩

/-- A line of `k` zeros. -/
def zeros (k : ℕ) : List (List UInt8) := List.replicate k [48]

/-- The settings of a server for tables with `k` columns of integers. -/
def serverEnv (k : ℕ) : Server.RuntimeEnv :=
  { Server.smallEnv with bufferSize := 1, iformat := 1, schema := List.replicate k ⟨.int, 4⟩ }

/-- The settings of a client for such tables. -/
def clientEnv (k : ℕ) : Client.RuntimeEnv :=
  { Client.smallEnv with bufferSize := 1, iformat := 1, schema := List.replicate k ⟨.int, 4⟩ }

theorem sameSettings (k : ℕ) : SameSettings (serverEnv k) (clientEnv k) := ⟨rfl, rfl, rfl⟩

theorem csvRow_zeros (k : ℕ) (extS : Server.External) (extC : Client.External) :
    CsvRow extS extC (List.replicate k ⟨.int, 4⟩) (zeros k) := by
  have h_zero : CsvField extS extC ⟨.int, 4⟩ [48] :=
    ⟨by decide, by decide, by decide, 0, by decide, by decide, by decide⟩
  induction k with
  | zero => exact .nil
  | succ k ih => exact .cons h_zero ih

theorem sizes_serverEnv (k : ℕ) : ∀ a ∈ (serverEnv k).schema, a.Canonical := fun a ha => by
  rw [List.eq_of_mem_replicate ha]
  exact ⟨rfl, by decide⟩

/-- A line of 86 zeros does not: a line of 86 integers may be longer than a buffer of 1 KiB, so the
client flushes before it, and the write threads find another text. -/
theorem not_roundTrips_zeros :
    ∃ es m c, Deserializes (serverEnv 86) Server.emptyTable [zeros 86]
        (Server.poolWith (serverEnv 86) (batchText [zeros 86])) m es (.done none) ∧
      Event.outputs 2 es = [c] ∧
      ∃ (m₁ m₂ : Memory Buffer Client.Files) (es' : List (Event Buffer))
          (reads : List (ℕ × Buffer)) (contents : List Buffer),
        Relay 4 Client.Ser.held (Client.serialize (clientEnv 86) (Client.zstdStream 0)) 3 .popIn m₁
          es' reads .popIn m₂ ∧
        Event.arrivals 2 es' = [some c] ∧ Takes 0 (Client.Full (clientEnv 86)) es' ∧
        ReadAll 3 es' reads contents ∧ contents.flatMap Buffer.data ≠ batchText [zeros 86] := by
  have h_pos : 1 ≤ (serverEnv 86).tuplesPerBuffer := by decide +kernel
  have h_csv : ∀ fields ∈ [zeros 86], CsvRow Server.emptyTable (Client.zstdStream 0)
      (serverEnv 86).schema fields := List.forall_mem_singleton.mpr (csvRow_zeros 86 _ _)
  -- the table of one row that the server sends
  obtain ⟨es, m, h_reads, -⟩ := exists_deserializes (serverEnv 86) Server.emptyTable [zeros 86]
    (by decide +kernel)
  obtain ⟨c, h_out, h_holds⟩ := (h_reads.outputs rfl (.inl rfl) (sizes_serverEnv 86) h_pos h_csv
    h_pos).2 (List.cons_ne_nil _ _)
  -- the longest line has no room in an empty buffer
  have h_flush : ¬ (Client.tableText (clientEnv 86) (Client.zstdStream 0) c 0).length
      + Client.maxTupleSize (clientEnv 86) ≤ (clientEnv 86).bufferSizeInBytes := by
    change ¬ 0 + Client.maxTupleSize (clientEnv 86) ≤ _
    decide +kernel
  have h_lost := Client.not_findsText_of_flush (k := 0) rfl (.inl rfl) h_holds.format
    (h_holds.tuples.symm ▸ Nat.one_pos) nofun h_flush
  have h_lines := tableText_eq (sameSettings 86) (.inl rfl) (sizes_serverEnv 86)
    (schema_ne_nil h_pos) h_csv h_pos h_holds (x := c) ⟨rfl, rfl, rfl⟩ le_rfl
  simp only [Client.FindsText, not_forall] at h_lost
  obtain ⟨m₁, m₂, es', reads, contents, h_run, h_arrivals, h_full, h_read, h_text⟩ := h_lost
  rw [h_holds.tuples, h_lines, List.take_length] at h_text
  exact ⟨es, m, c, h_reads, h_out, m₁, m₂, es', reads, contents, h_run, h_arrivals, h_full, h_read,
    h_text⟩

end Batches

end Xdbc
