import Xdbc.Server.Rounds
import Xdbc.Server.Ownership
import Xdbc.Pipeline.Regroup

/-!
# A deserialization thread regroups the rows

The input buffers of a deserialization thread hold any number of rows each. What it pushes are
tables with the same rows in the same order, `tuples_per_buffer` to a buffer, with a shorter one at
the end.

The first part is about the output buffers, wherever the rows come from: a round writes one more row
behind the others (`splits_write`), and the header that the code writes makes a table of them
(`HoldsTable`). The second part gives the state of the regrouping at each program point
(`Deser.Regroups` for `deserializeCSV` and `deserializePG`, `DeserPQ.Regroups` for `deserializePQ`)
and finds that every operation keeps to it.
-/

namespace Xdbc.Server

open Bytes Pipeline

/-! ### Tables -/

section Tables

variable {ρ : Type} (X : TextSource) (env : RuntimeEnv) (row : ρ → Row) (rowsOf : Buffer → List ρ)

/-- The buffer holds the rows as a table: its header tells how many, and its payload are their
cells. -/
structure HoldsTable (rows : List ρ) (b : Buffer) : Prop where
  tuples : b.header.totalTuples = rows.length
  size : b.header.totalSize
    = if env.iformat = 2 then env.tuplesPerBuffer * env.tupleSize else rows.length * env.tupleSize
  room : b.header.totalSize ≤ env.payloadSize
  format : b.header.intermediateFormat = env.iformat
  cells : cellRows X env rows.length b.data = rows.map row

/-- Rows into tables of `tuples_per_buffer` rows. -/
def tables : Regrouping Buffer ρ where
  source := 1
  sink := 2
  itemsOf := rowsOf
  Full rows := rows.length = env.tuplesPerBuffer
  Holds := HoldsTable X env row

/-- The open output buffer holds `k` rows, and has room for another one. -/
structure Fills (k : ℕ) (b : Buffer) (rows : List ρ) : Prop where
  tuples : k = rows.length
  room : rows.length < env.tuplesPerBuffer
  cells : cellRows X env rows.length b.payload = rows.map row
  full : Full env b

/-- What the last buffer of a thread holds: at least one row. -/
def Remain (rows : List ρ) : Prop := 1 ≤ rows.length ∧ rows.length ≤ env.tuplesPerBuffer

variable {X env row rowsOf} {es : List (Event Buffer)} {b : Buffer} {k : ℕ} {left : List ρ}

/-- An open output buffer has room for another row. -/
theorem splits_room (h : (tables X env row rowsOf).Splits es (Fills X env row k b) left) :
    k < env.tuplesPerBuffer ∧ Full env b := by
  obtain ⟨batches, rows, -, ⟨rfl, h_room, -, h_full⟩, -⟩ := h
  exact ⟨h_room, h_full⟩

/-- A new output buffer is empty. -/
theorem splits_empty (h : (tables X env row rowsOf).Splits es (fun rows => rows = []) left)
    (hk : k = 0) (h_pos : 1 ≤ env.tuplesPerBuffer) (h_full : Full env b) :
    (tables X env row rowsOf).Splits es (Fills X env row k b) left :=
  h.imp fun _ h_nil => h_nil ▸ ⟨hk, h_pos, rfl, h_full⟩

/-- **A round writes the next row**: the output buffer is full then, or open. -/
theorem splits_write (h_width : ∀ a ∈ env.schema, a.width ≤ a.size) {r : ρ} {payload : List UInt8}
    (h : (tables X env row rowsOf).Splits es (Fills X env row k b) (r :: left))
    (h_length : payload.length = env.payloadSize)
    (h_cells : cellRows X env (k + 1) payload = cellRows X env k b.payload ++ [row r]) :
    if k + 1 = env.tuplesPerBuffer then
      (tables X env row rowsOf).Splits es (fun rows => rows.length = env.tuplesPerBuffer ∧
        HoldsTable X env row rows ⟨fullHeader env env.tuplesPerBuffer, payload⟩) left
    else (tables X env row rowsOf).Splits es
      (Fills X env row (k + 1) { b with payload := payload }) left := by
  have h_count : ∀ rows, Fills X env row k b rows → (rows ++ [r]).length = k + 1 :=
    fun rows h_fills => by rw [h_fills.tuples, List.length_append, List.length_singleton]
  have h_written : ∀ rows, Fills X env row k b rows →
      cellRows X env (rows ++ [r]).length payload = (rows ++ [r]).map row := fun rows h_fills => by
    rw [h_count rows h_fills, h_cells, h_fills.tuples, h_fills.cells, List.map_append,
      List.map_singleton]
  -- the row fills the table, which is flushed, or there is room for more
  split
  · next h_flush =>
    refine h.next fun rows h_fills => ?_
    have h_all : (rows ++ [r]).length = env.tuplesPerBuffer := (h_count rows h_fills).trans h_flush
    refine ⟨h_all, h_all.symm, ?_, le_refl env.payloadSize, rfl, ?_⟩
    · rw [h_all, ite_self]
      rfl
    · rw [← h_written rows h_fills]
      exact cellRows_take h_width h_all.le (.inr le_rfl) payload
  · next h_more =>
    refine h.next fun rows h_fills => ⟨(h_count rows h_fills).symm, ?_, h_written rows h_fills,
      h_length⟩
    have h_room := (splits_room h).1
    rw [h_count rows h_fills]
    omega

/-- **The rows that remain** are the last table. -/
theorem splits_rest (h_format : env.iformat = 1 ∨ env.iformat = 2)
    (h_width : ∀ a ∈ env.schema, a.width ≤ a.size)
    (h : (tables X env row rowsOf).Splits es (Fills X env row k b) left) (hk : 0 < k) :
    (tables X env row rowsOf).Splits es (fun rows => Remain env rows ∧
      HoldsTable X env row rows { b with header := restHeader env k }) left := by
  refine h.imp fun rows h_fills => ?_
  obtain ⟨rfl, h_room, h_cells, -⟩ := h_fills
  refine ⟨⟨hk, h_room.le⟩, rfl, rfl, ?_, rfl, ?_⟩
  · have h_le := Nat.mul_le_mul_right env.tupleSize h_room.le
    change (if env.iformat = 2 then _ else _) ≤ env.tuplesPerBuffer * env.tupleSize
    split
    · exact le_rfl
    · exact h_le
  · rw [← h_cells]
    refine cellRows_take h_width h_room.le ?_ b.payload
    rcases h_format with h_one | h_two
    · exact .inl ⟨h_one, by simp [restHeader, h_one]⟩
    · exact .inr (by simp [restHeader, h_two])

/-- Without rows that remain all tables are full. -/
theorem splits_none (h : (tables X env row rowsOf).Splits es (Fills X env row k b) [])
    (hk : ¬ 0 < k) : ∃ batches, (tables X env row rowsOf).Chunks es (Remain env) batches := by
  refine (h.imp fun rows h_fills => ?_).chunked
  have h_tuples := h_fills.tuples
  exact List.eq_nil_of_length_eq_zero (by omega)

end Tables

/-! ### `deserializeCSV` and `deserializePG` -/

section Text

variable (X : TextSource) (env : RuntimeEnv) (ext : External)

/-- The rows of a buffer of text. -/
def rowsOfText (c : Buffer) : List (List (List UInt8)) := fieldRows X c.data

/-- The rows of the text, as tables. -/
abbrev textTables : Regrouping Buffer (List (List UInt8)) :=
  tables X env (cells ext env.schema) (rowsOfText X)

variable {X env ext} (R : RowKind X env ext)

/-- The rows of a kind, as tables. -/
abbrev RowKind.tables : Regrouping Buffer (List (List UInt8)) :=
  Server.tables X env R.row (rowsOfText X)

/-- The open output buffer holds `k` rows of text. -/
abbrev RowKind.Fills : ℕ → Buffer → List (List (List UInt8)) → Prop :=
  Server.Fills X env R.row

/-- The output buffer holds the rows of text as a table. -/
abbrev RowKind.Holds : List (List (List UInt8)) → Buffer → Prop :=
  HoldsTable X env R.row

/-- **The state of the regrouping at each program point.** -/
def Deser.Regroups (es : List (Event Buffer)) (p : ℤ → Buffer) : Deser → Prop
  | .start => Event.inputs 1 es = [] ∧ Event.outputs 2 es = []
  | .popIn o => Full env (p o) ∧ Event.inputs 1 es = [] ∧ Event.outputs 2 es = []
  | .row d => d.inBid ≠ d.outBid ∧ d.Reads R p ∧
      R.tables.Splits es (R.Fills d.bufferTupleId (p d.outBid)) (fieldRows X (d.unread p))
  | .flushPush d => d.bufferTupleId = 0 ∧ d.Reads R p ∧
      R.tables.Splits es (fun rows => rows.length = env.tuplesPerBuffer ∧
        R.Holds rows (p d.outBid)) (fieldRows X (d.unread p))
  | .flushPop d => d.bufferTupleId = 0 ∧ d.Reads R p ∧
      R.tables.Splits es (fun rows => rows = []) (fieldRows X (d.unread p))
  | .freeIn d => d.readOffset = (p d.inBid).header.totalSize ∧
      R.tables.Splits es (R.Fills d.bufferTupleId (p d.outBid)) []
  | .nextIn d | .rest d => R.tables.Splits es (R.Fills d.bufferTupleId (p d.outBid)) []
  | .restPush d => R.tables.Splits es (fun rows => Remain env rows ∧
      R.Holds rows (p d.outBid)) []
  | .done _ => ∃ batches, R.tables.Chunks es (Remain env) batches
  | .skipPush _ | .thrown _ _ => False

variable {R} {es : List (Event Buffer)} {p p' : ℤ → Buffer}

/-- What is known of a thread is about the buffers it holds. -/
theorem Deser.Regroups.congr {l : Deser} (h_own : ∀ b ∈ l.held, p' b = p b)
    (h : l.Regroups R es p) : l.Regroups R es p' := by
  cases l with
  | popIn o =>
    rw [Deser.Regroups, h_own o (by simp [held])]
    exact h
  -- what is still to be read depends on the input buffer, what is stored on the output buffer
  | row d =>
    have h_in := h_own d.inBid (by simp [held])
    obtain ⟨h_ne, h_reads, h_splits⟩ := h
    refine ⟨h_ne, h_reads.congr h_in, ?_⟩
    rw [DeserVars.unread_congr h_in, h_own d.outBid (by simp [held])]
    exact h_splits
  | flushPush d =>
    have h_in := h_own d.inBid (by simp [held])
    obtain ⟨h_zero, h_reads, h_flushes⟩ := h
    refine ⟨h_zero, h_reads.congr h_in, ?_⟩
    rw [DeserVars.unread_congr h_in, h_own d.outBid (by simp [held])]
    exact h_flushes
  | flushPop d =>
    have h_in := h_own d.inBid (by simp [held])
    obtain ⟨h_zero, h_reads, h_lacks⟩ := h
    refine ⟨h_zero, h_reads.congr h_in, ?_⟩
    rw [DeserVars.unread_congr h_in]
    exact h_lacks
  | freeIn d =>
    rw [Deser.Regroups, h_own d.inBid (by simp [held]), h_own d.outBid (by simp [held])]
    exact h
  | nextIn d => rw [Deser.Regroups, h_own d.outBid (by simp [held])]; exact h
  | rest d => rw [Deser.Regroups, h_own d.outBid (by simp [held])]; exact h
  | restPush d => rw [Deser.Regroups, h_own d.outBid (by simp [held])]; exact h
  | start => exact h
  | done o => exact h
  | skipPush b => exact h
  | thrown i o => exact h

/-- What a thread has still to do before it waits for its next input buffer. -/
def Deser.rank (p : ℤ → Buffer) : Deser → ℕ
  | .flushPush d => 3 * (d.unread p).length + 4
  | .flushPop d => 3 * (d.unread p).length + 3
  | .row d => 3 * (d.unread p).length + 2
  | .rest _ => 2
  | .start | .freeIn _ | .restPush _ => 1
  | .popIn _ | .nextIn _ | .skipPush _ | .done _ | .thrown _ _ => 0

/-- **A round of the loop** over the rows keeps to the regrouping, and reads something unless there
is nothing left. -/
theorem DeserVars.step_regroups {σ : Type} (h_format : env.iformat = 1 ∨ env.iformat = 2)
    (h_flushes : X.flushes env.iformat = true) {d : DeserVars} {m : Memory Buffer σ}
    (h : (Deser.row d).Regroups R es m.pool) :
    (d.step X env ext m).2.Regroups R es (d.step X env ext m).1.pool ∧
      Deser.rank (d.step X env ext m).1.pool (d.step X env ext m).2 < Deser.rank m.pool (.row d) := by
  obtain ⟨h_ne, h_reads, h_splits⟩ := h
  by_cases h_lt : d.readOffset < (m.pool d.inBid).header.totalSize
  · -- the next row of the text, and room for it in the output buffer
    obtain ⟨fields, rest, h_meets⟩ := h_reads.meets h_lt
    obtain ⟨h_room, h_full_out⟩ := splits_room h_splits
    obtain ⟨payload, h_length, h_cells, h_step⟩ := d.step_table h_format h_flushes h_meets
      h_full_out h_room
    have h_pos := List.length_pos_of_ne_nil (rowText_ne_nil (X := X) fields)
    have h_unread : (d.unread m.pool).length = (rowText X fields).length + rest.length := by
      rw [h_meets.begins, List.length_append]
    have h_plain := R.plain h_meets.row
    rw [h_meets.begins, h_plain.fieldRows_append] at h_splits
    have h_write := splits_write h_plain.room h_splits h_length h_cells
    have h_in := m.write_pool_of_ne h_ne
    rw [h_step]
    split
    · next h_flush =>
      -- the row fills the table: it is flushed, and the next one begins empty
      rw [if_pos h_flush] at h_write
      obtain ⟨h_reads', h_left⟩ := h_meets.advance { d with
        readOffset := d.readOffset + (rowText X fields).length, bufferTupleId := 0 } rfl rfl
        (h_in ⟨fullHeader env env.tuplesPerBuffer, payload⟩)
      refine ⟨⟨rfl, h_reads', ?_⟩, ?_⟩
      · rw [h_left, Memory.write_pool_self]
        exact h_write
      · simp only [Deser.rank]
        rw [h_left]
        omega
    · next h_more =>
      -- there is room for more rows
      rw [if_neg h_more] at h_write
      obtain ⟨h_reads', h_left⟩ := h_meets.advance { d with
        readOffset := d.readOffset + (rowText X fields).length
        bufferTupleId := d.bufferTupleId + 1 } rfl rfl
        (h_in { m.pool d.outBid with payload := payload })
      refine ⟨⟨h_ne, h_reads', ?_⟩, ?_⟩
      · rw [h_left, Memory.write_pool_self]
        exact h_write
      · simp only [Deser.rank]
        rw [h_left]
        omega
  · -- the input buffer has been read to its end
    obtain ⟨h_nil, h_read⟩ := h_reads.read h_lt
    rw [h_nil] at h_splits
    rw [d.step_read h_lt]
    refine ⟨⟨h_read, h_splits⟩, ?_⟩
    simp only [Deser.rank]
    omega

/-- **The thread stops** between two input buffers, and after the last. -/
theorem Deser.Regroups.lowers (h_format : env.iformat = 1 ∨ env.iformat = 2)
    (h_flushes : X.flushes env.iformat = true) (h_skip : ¬ (X.skips ∧ env.skipDeserializer))
    {σ : Type} {m : Memory Buffer σ} {l : Deser} (h : l.Regroups R es m.pool) :
    Lowers (· = 1) Deser.rank l m (deserializeText X env ext l) := by
  cases l with
  | start =>
    simp only [deserializeText, if_neg h_skip]
    exact .inr fun v => Nat.zero_lt_one
  | popIn o => exact .inl rfl
  | row d => exact (d.step_regroups h_format h_flushes h).2
  | flushPush d => exact Nat.lt_succ_self _
  | flushPop d => exact .inr fun v => Nat.lt_succ_self _
  | freeIn d => exact Nat.zero_lt_one
  | nextIn d => exact .inl rfl
  -- the last table, the last batch, or nothing
  | rest d =>
    simp only [deserializeText]
    split
    · exact Nat.lt_succ_self _
    · split
      · change Deser.rank _ _ < 2
        dsimp only
        split <;> simp [Deser.rank]
      · exact Nat.zero_lt_two
  | restPush d => exact Nat.zero_lt_one
  | done o => exact trivial
  | skipPush b => exact h.elim
  | thrown i o => exact h.elim

/-- It stops only behind the last buffer. -/
theorem Deser.exists_done_of_stops {σ : Type} {l : Deser}
    (h : (deserializeText (σ := σ) X env ext l).Stops) : ∃ o, l = .done o := by
  cases l with
  | done o => exact ⟨o, rfl⟩
  | start =>
    simp only [deserializeText] at h
    split at h <;> exact h.elim
  | rest d =>
    simp only [deserializeText] at h
    repeat' split at h
    all_goals exact h.elim
  | _ => exact h.elim

/-- **Step lemma.** Every operation of the thread keeps to the regrouping. -/
theorem deserializeText_regroups (h_format : env.iformat = 1 ∨ env.iformat = 2)
    (h_flushes : X.flushes env.iformat = true) (h_skip : ¬ (X.skips ∧ env.skipDeserializer))
    (h_width : ∀ a ∈ env.schema, a.width ≤ a.size) (h_pos : 1 ≤ env.tuplesPerBuffer)
    {σ : Type} {m₀ m : Memory Buffer σ} {l : Deser}
    (h : Solo 4 Deser.held (deserializeText X env ext) Deser.TakesMarker .start m₀ es l m)
    (h_full : Takes 0 (Full env) es) (h_whole : Takes 1 R.Rows es) :
    l.Regroups R es m.pool := by
  induction h with
  | start => exact ⟨rfl, rfl⟩
  | others _ h_own ih => exact (ih h_full h_whole).congr h_own
  | @pop es l m q k v _ hop h_free h_new h_good ih =>
    have h_inv := ih h_full.of_append h_whole.of_append
    cases l with
    | start =>
      -- the first output buffer
      simp only [deserializeText, if_neg h_skip] at hop
      cases hop
      obtain ⟨h_in, h_out⟩ := h_inv
      refine ⟨h_full.popped (h_free rfl), ?_, ?_⟩
      · rw [Event.inputs_popped_of_ne (by decide)]; exact h_in
      · rw [Event.outputs_popped]; exact h_out
    | popIn o =>
      simp only [deserializeText] at hop
      cases hop
      obtain ⟨h_out_full, h_in, h_out⟩ := h_inv
      -- the first input buffer, which is not the output buffer
      have hv : v ≠ marker := by rintro rfl; exact h_good rfl
      refine ⟨fun h_eq => h_new (by decide) hv (Multiset.mem_singleton.mpr h_eq),
        .of_rows rfl (h_whole.popped hv), .first ?_ ?_ ⟨rfl, h_pos, rfl, h_out_full⟩⟩
      · rw [RowKind.tables, tables, Event.inputs_popped hv, h_in]; rfl
      · rw [RowKind.tables, tables, Event.outputs_popped]; exact h_out
    | flushPop d =>
      simp only [deserializeText] at hop
      cases hop
      -- a fresh output buffer
      obtain ⟨h_zero, ⟨h_rows, h_size, h_offset⟩, h_splits⟩ := h_inv
      exact ⟨fun h_eq => h_new (by decide) (h_free rfl) (Multiset.mem_singleton.mpr h_eq.symm),
        ⟨h_rows, h_size, h_offset⟩, splits_empty (h_splits.popped_of_ne (Nat.zero_ne_one)) h_zero
          h_pos (h_full.popped (h_free rfl))⟩
    | nextIn d =>
      simp only [deserializeText] at hop
      cases hop
      by_cases hv : v = marker
      · -- behind the last input buffer the open table is the remainder
        subst hv
        exact h_inv.marker
      · dsimp only
        rw [if_neg hv]
        exact ⟨fun h_eq => h_new (by decide) hv (Multiset.mem_singleton.mpr h_eq),
          -- the rows of the next input buffer
          .of_rows rfl (h_whole.popped hv), h_inv.input hv⟩
    | skipPush b => exact h_inv.elim
    | thrown i o => exact h_inv.elim
    | rest d =>
      simp only [deserializeText] at hop
      repeat' split at hop
      all_goals cases hop
    | _ => simp [deserializeText] at hop
  | @push es l m q v l' _ hop h_good ih =>
    have h_inv := ih h_full.of_append h_whole.of_append
    cases l with
    | flushPush d =>
      simp only [deserializeText] at hop
      cases hop
      -- the table that is pushed is one of the chunks
      exact ⟨h_inv.1, h_inv.2.1, h_inv.2.2.pushed⟩
    | freeIn d =>
      simp only [deserializeText] at hop
      cases hop
      exact h_inv.2.pushed_of_ne (Nat.zero_ne_add_one 1)
    | restPush d =>
      simp only [deserializeText] at hop
      cases hop
      exact h_inv.chunked_pushed
    | start => simp only [deserializeText, if_neg h_skip] at hop; cases hop
    | skipPush b => exact h_inv.elim
    | thrown i o => exact h_inv.elim
    | rest d =>
      simp only [deserializeText] at hop
      repeat' split at hop
      all_goals cases hop
    | _ => simp [deserializeText] at hop
  | @work es l m bs f _ hop h_good ih =>
    have h_inv := ih h_full h_whole
    cases l with
    | row d =>
      simp only [deserializeText] at hop
      cases hop
      exact (d.step_regroups h_format h_flushes h_inv).1
    | rest d =>
      have h_room := (splits_room h_inv).1
      simp only [deserializeText, h_flushes, and_true] at hop
      split at hop
      · next h_some =>
        -- the header of the remainder tells how many rows it has
        cases hop
        have h_rest := splits_rest h_format h_width h_inv h_some.1
        rw [← m.write_pool_self d.outBid { m.pool d.outBid with
          header := restHeader env d.bufferTupleId }] at h_rest
        exact h_rest
      · next h_none =>
        rw [if_neg (by omega)] at hop
        cases hop
        -- there is no remainder
        exact splits_none h_inv (by omega)
    | start => simp only [deserializeText, if_neg h_skip] at hop; cases hop
    | skipPush b => exact h_inv.elim
    | thrown i o => exact h_inv.elim
    | _ => simp [deserializeText] at hop

end Text

/-! ### `deserializePQ` -/

section Parquet

variable (env : RuntimeEnv) (ext : External)

/-- The cell of a value of a Parquet file. -/
def parquetCell (a : SchemaAttribute) (value : List UInt8) : List UInt8 :=
  match a.tpe with
  | .string => value ++ List.replicate (a.size - value.length) 0
  | _ => value.take a.width

/-- The cells of a row of a Parquet file. -/
def parquetCells (schema : List SchemaAttribute) (row : List (List UInt8)) : Row :=
  List.zipWith parquetCell schema row

/-- The value fits its cell. -/
def ParquetValue (a : SchemaAttribute) (value : List UInt8) : Prop :=
  match a.tpe with
  | .string => value.length ≤ a.size
  | _ => value.length = a.width

theorem ParquetValue.length_cell {a : SchemaAttribute} {value : List UInt8}
    (h : ParquetValue a value) : (parquetCell a value).length = a.width := by
  obtain ⟨tpe, size⟩ := a
  cases tpe with
  | string =>
    simp only [ParquetValue, parquetCell, SchemaAttribute.width, List.length_append,
      List.length_replicate] at h ⊢
    omega
  | _ => simpa [parquetCell, List.length_take] using h.ge

/-- Writing a value writes its cell. -/
theorem ParquetValue.put_cell {a : SchemaAttribute} {value : List UInt8} (h : ParquetValue a value)
    (dst : List UInt8) (dest : ℕ) :
    writeParquetField a value dst dest = put dst dest (parquetCell a value) := by
  obtain ⟨tpe, size⟩ := a
  cases tpe with
  | string =>
    simp only [writeParquetField, parquetCell]
    rw [put_put_of_le (by simpa [ParquetValue] using h), List.drop_replicate]
  | char =>
    obtain ⟨b, rfl⟩ := List.length_eq_one_iff.mp h
    rfl
  | _ => rfl

/-- **`writeParquetRow` writes the cells of the row.** -/
theorem writeParquetRow_eq {env : RuntimeEnv} (h_format : env.iformat = 1 ∨ env.iformat = 2)
    {schema : List SchemaAttribute} {row : List (List UInt8)}
    (h_canonical : ∀ a ∈ schema, a.Canonical) (h : List.Forall₂ ParquetValue schema row)
    (k off : ℕ) (dst : List UInt8) :
    writeParquetRow env k schema row off dst
      = (layout env).writeRow k (columns pgText schema off) (parquetCells schema row) dst := by
  induction h generalizing off dst with
  | nil => rfl
  | @cons a value schema row h_value h_row ih =>
    obtain ⟨h_head, h_tail⟩ := List.forall_mem_cons.mp h_canonical
    have h_step : writeParquetRow env k (a :: schema) (value :: row) off dst
        = writeParquetRow env k schema row (off + a.width)
          (put dst (cellAddress env a.size k off) (parquetCell a value)) := by
      rw [← h_value.put_cell]
      exact congrArg (writeParquetRow env k schema row (off + a.width)) (if_pos h_format)
    have h_address : (layout env).address ⟨off, a.size, pgText.stride a, a.width⟩ k
        = cellAddress env a.size k off := address_layout pgText env off a.size a.width k a
    rw [h_step, ih h_tail, ← h_head.1, ← h_address]
    rfl

theorem widths_parquetCells {schema : List SchemaAttribute} {row : List (List UInt8)}
    (h : List.Forall₂ ParquetValue schema row) (off : ℕ) :
    Layout.Widths (columns pgText schema off) (parquetCells schema row) := by
  induction h generalizing off with
  | nil => exact .nil
  | cons h_value _ ih => exact .cons h_value.length_cell (ih _)

/-- The rows of a Parquet file, none if it cannot be read. -/
def rowsOfParquet (c : Buffer) : List (List (List UInt8)) := (ext.parquetRows c.data).getD []

/-- The buffer is a Parquet file with values that fit their cells. -/
def AcceptsParquet (c : Buffer) : Prop :=
  (ext.parquetRows c.data).isSome ∧
    ∀ row ∈ rowsOfParquet ext c, List.Forall₂ ParquetValue env.schema row

/-- The values of the rows left of the stream fit their cells. -/
def PqVars.Fits (d : PqVars) : Prop := ∀ row ∈ d.rows, List.Forall₂ ParquetValue env.schema row

/-- The rows of Parquet files, as tables. -/
abbrev parquetTables : Regrouping Buffer (List (List UInt8)) :=
  tables pgText env (parquetCells env.schema) (rowsOfParquet ext)

/-- The open output buffer holds `k` rows of Parquet files. -/
abbrev ParquetFills : ℕ → Buffer → List (List (List UInt8)) → Prop :=
  Fills pgText env (parquetCells env.schema)

/-- The output buffer holds the rows of Parquet files as a table. -/
abbrev HoldsParquet : List (List (List UInt8)) → Buffer → Prop :=
  HoldsTable pgText env (parquetCells env.schema)

/-- **The state of the regrouping at each program point.** -/
def DeserPQ.Regroups (es : List (Event Buffer)) (p : ℤ → Buffer) : DeserPQ → Prop
  | .start => Event.inputs 1 es = [] ∧ Event.outputs 2 es = []
  | .popOut b => AcceptsParquet env ext (p b) ∧ Event.inputs 1 es = [p b] ∧ Event.outputs 2 es = []
  | .openStream d => AcceptsParquet env ext (p d.deserBuff) ∧
      (parquetTables env ext).Splits es (ParquetFills env d.numRows (p d.writeBuff))
        (rowsOfParquet ext (p d.deserBuff))
  | .row d => d.Fits env ∧
      (parquetTables env ext).Splits es (ParquetFills env d.numRows (p d.writeBuff)) d.rows
  | .flushPush d => d.Fits env ∧ d.numRows = 0 ∧
      (parquetTables env ext).Splits es (fun rows => rows.length = env.tuplesPerBuffer ∧
        HoldsParquet env rows (p d.writeBuff)) d.rows
  | .flushPop d => d.Fits env ∧ d.numRows = 0 ∧
      (parquetTables env ext).Splits es (fun rows => rows = []) d.rows
  | .freeIn d | .nextIn d | .rest d =>
      (parquetTables env ext).Splits es (ParquetFills env d.numRows (p d.writeBuff)) []
  | .restPush d => (parquetTables env ext).Splits es (fun rows => Remain env rows ∧
      HoldsParquet env rows (p d.writeBuff)) []
  | .done _ => ∃ batches, (parquetTables env ext).Chunks es (Remain env) batches
  | .skipPush _ | .thrown _ _ => False

variable {env ext} {es : List (Event Buffer)} {p p' : ℤ → Buffer}

/-- What is known of a thread is about the buffers it holds. -/
theorem DeserPQ.Regroups.congr {l : DeserPQ} (h_own : ∀ b ∈ l.held, p' b = p b)
    (h : l.Regroups env ext es p) : l.Regroups env ext es p' := by
  cases l with
  | popOut b => rw [DeserPQ.Regroups, h_own b (by simp [held])]; exact h
  | openStream d =>
    rw [DeserPQ.Regroups, h_own d.deserBuff (by simp [held]), h_own d.writeBuff (by simp [held])]
    exact h
  | row d => rw [DeserPQ.Regroups, h_own d.writeBuff (by simp [held])]; exact h
  | flushPush d => rw [DeserPQ.Regroups, h_own d.writeBuff (by simp [held])]; exact h
  | freeIn d => rw [DeserPQ.Regroups, h_own d.writeBuff (by simp [held])]; exact h
  | nextIn d => rw [DeserPQ.Regroups, h_own d.writeBuff (by simp [held])]; exact h
  | rest d => rw [DeserPQ.Regroups, h_own d.writeBuff (by simp [held])]; exact h
  | restPush d => rw [DeserPQ.Regroups, h_own d.writeBuff (by simp [held])]; exact h
  | start => exact h
  | flushPop d => exact h
  | done o => exact h
  | skipPush b => exact h
  | thrown i o => exact h

/-- **Step lemma.** Every operation of the thread keeps to the regrouping. -/
theorem deserializePQ_regroups (h_format : env.iformat = 1 ∨ env.iformat = 2)
    (h_skip : env.skipDeserializer = false) (h_canonical : ∀ a ∈ env.schema, a.Canonical)
    (h_pos : 1 ≤ env.tuplesPerBuffer) {σ : Type} {m₀ m : Memory Buffer σ} {l : DeserPQ}
    (h : Solo 4 DeserPQ.held (deserializePQ env ext) DeserPQ.TakesMarker .start m₀ es l m)
    (h_full : Takes 0 (Full env) es) (h_accepts : Takes 1 (AcceptsParquet env ext) es) :
    l.Regroups env ext es m.pool := by
  have h_width : ∀ a ∈ env.schema, a.width ≤ a.size := fun a ha => (h_canonical a ha).1.ge
  have h_start : deserializePQ env ext .start = (.pop 1 .popOut : Op DeserPQ Buffer σ) := by
    simp [deserializePQ, h_skip]
  induction h with
  | start => exact ⟨rfl, rfl⟩
  | others _ h_own ih => exact (ih h_full h_accepts).congr h_own
  | @pop es l m q k v _ hop h_free h_new h_good ih =>
    have h_inv := ih h_full.of_append h_accepts.of_append
    cases l with
    | start =>
      rw [h_start] at hop
      cases hop
      obtain ⟨h_in, h_out⟩ := h_inv
      -- the first input buffer, for the output buffer is popped later
      have hv : v ≠ marker := fun h_eq => h_good h_eq
      refine ⟨h_accepts.popped hv, ?_, ?_⟩
      · rw [Event.inputs_popped hv, h_in]; rfl
      · rw [Event.outputs_popped]; exact h_out
    | popOut b =>
      simp only [deserializePQ] at hop
      cases hop
      -- the first output buffer
      obtain ⟨h_accept, h_in, h_out⟩ := h_inv
      refine ⟨h_accept, .first ?_ ?_ ⟨rfl, h_pos, rfl, h_full.popped (h_free rfl)⟩⟩
      · rw [parquetTables, tables, Event.inputs_popped_of_ne Nat.zero_ne_one]; exact h_in
      · rw [parquetTables, tables, Event.outputs_popped]; exact h_out
    | flushPop d =>
      simp only [deserializePQ] at hop
      cases hop
      -- a fresh output buffer
      obtain ⟨h_fits, h_zero, h_splits⟩ := h_inv
      exact ⟨h_fits, splits_empty (h_splits.popped_of_ne (Nat.zero_ne_one)) h_zero h_pos
        (h_full.popped (h_free rfl))⟩
    | nextIn d =>
      simp only [deserializePQ] at hop
      cases hop
      by_cases hv : v = marker
      · -- behind the last input buffer the open table is the remainder
        subst hv
        exact h_inv.marker
      · dsimp only
        rw [if_neg hv]
        exact ⟨h_accepts.popped hv, h_inv.input hv⟩
    | skipPush b => exact h_inv.elim
    | thrown i o => exact h_inv.elim
    | row d | rest d =>
      simp only [deserializePQ] at hop
      split at hop <;> cases hop
    | _ => simp [deserializePQ] at hop
  | @push es l m q v l' _ hop h_good ih =>
    have h_inv := ih h_full.of_append h_accepts.of_append
    cases l with
    | flushPush d =>
      simp only [deserializePQ] at hop
      cases hop
      exact ⟨h_inv.1, h_inv.2.1, h_inv.2.2.pushed⟩
    | freeIn d =>
      simp only [deserializePQ] at hop
      cases hop
      exact h_inv.pushed_of_ne (Nat.zero_ne_add_one 1)
    | restPush d =>
      simp only [deserializePQ] at hop
      cases hop
      exact h_inv.chunked_pushed
    | start => rw [h_start] at hop; cases hop
    | skipPush b => exact h_inv.elim
    | thrown i o => exact h_inv.elim
    | row d | rest d =>
      simp only [deserializePQ] at hop
      split at hop <;> cases hop
    | _ => simp [deserializePQ] at hop
  | @work es l m bs f _ hop h_good ih =>
    have h_inv := ih h_full h_accepts
    cases l with
    | openStream d =>
      simp only [deserializePQ] at hop
      cases hop
      -- the reader makes rows of the file, for the input is accepted
      obtain ⟨⟨h_some, h_values⟩, h_splits⟩ := h_inv
      obtain ⟨rows, h_rows⟩ := Option.isSome_iff_exists.mp h_some
      simp only [rowsOfParquet, h_rows, Option.getD_some] at h_values h_splits ⊢
      exact ⟨h_values, h_splits⟩
    | row d =>
      obtain ⟨b, o, numRows, rows⟩ := d
      obtain ⟨h_fits, h_splits⟩ := h_inv
      cases rows with
      | nil =>
        simp only [deserializePQ] at hop
        cases hop
        -- the rows of the file are written
        exact h_splits
      | cons row rows =>
        simp only [deserializePQ] at hop
        cases hop
        -- one row is written as its cells, in either format
        obtain ⟨h_values, h_fits⟩ := List.forall_mem_cons.mp h_fits
        obtain ⟨h_room, h_out_full⟩ := splits_room h_splits
        have h_cells := cellRows_writeRow_of_widths h_width
          (widths_parquetCells h_values 0) h_room h_out_full
        have h_write := splits_write h_width h_splits
          ((Layout.length_writeRow _ _ _).trans h_out_full) h_cells
        rw [← writeParquetRow_eq h_format h_canonical h_values] at h_write
        dsimp only
        split
        · next h_flush =>
          -- the row fills the table
          rw [if_pos h_flush] at h_write
          refine ⟨h_fits, rfl, ?_⟩
          rw [Memory.write_pool_self, h_flush]
          exact h_write
        · next h_more =>
          rw [if_neg h_more] at h_write
          refine ⟨h_fits, ?_⟩
          rw [Memory.write_pool_self]
          exact h_write
    | rest d =>
      simp only [deserializePQ] at hop
      split at hop
      · next h_some =>
        -- the header of the remainder tells how many rows it has
        cases hop
        have h_rest := splits_rest h_format h_width h_inv h_some
        rw [← m.write_pool_self d.writeBuff { m.pool d.writeBuff with
          header := restHeader env d.numRows }] at h_rest
        exact h_rest
      · next h_none =>
        cases hop
        exact splits_none h_inv h_none
    | start => rw [h_start] at hop; cases hop
    | skipPush b => exact h_inv.elim
    | thrown i o => exact h_inv.elim
    | _ => simp [deserializePQ] at hop

variable (ext) in
/-- What a thread has still to do before it waits for its next input buffer. -/
def DeserPQ.rank (p : ℤ → Buffer) : DeserPQ → ℕ
  | .popOut b => 3 * (rowsOfParquet ext (p b)).length + 4
  | .openStream d => 3 * (rowsOfParquet ext (p d.deserBuff)).length + 3
  | .flushPush d => 3 * d.rows.length + 4
  | .flushPop d => 3 * d.rows.length + 3
  | .row d => 3 * d.rows.length + 2
  | .rest _ => 2
  | .freeIn _ | .restPush _ => 1
  | .start | .nextIn _ | .skipPush _ | .done _ | .thrown _ _ => 0

/-- **The thread stops** between two input buffers, and after the last. -/
theorem DeserPQ.Regroups.lowers (h_skip : env.skipDeserializer = false) {σ : Type}
    {m : Memory Buffer σ} {l : DeserPQ} (h : l.Regroups env ext es m.pool) :
    Lowers (· = 1) (DeserPQ.rank ext) l m (deserializePQ env ext l) := by
  cases l with
  | start =>
    simp only [deserializePQ, h_skip]
    exact .inl rfl
  | popOut b => exact .inr fun v => Nat.lt_succ_self _
  -- a file that is accepted can be opened
  | openStream d =>
    obtain ⟨⟨h_some, -⟩, -⟩ := h
    obtain ⟨rows, h_rows⟩ := Option.isSome_iff_exists.mp h_some
    simp only [deserializePQ, Lowers, h_rows, DeserPQ.rank, rowsOfParquet, Option.getD_some]
    omega
  | row d =>
    obtain ⟨b, o, numRows, rows⟩ := d
    cases rows with
    | nil => exact Nat.lt_succ_self _
    | cons row rows =>
      simp only [deserializePQ, Lowers]
      split <;> simp only [DeserPQ.rank, List.length_cons] <;> omega
  | flushPush d => exact Nat.lt_succ_self _
  | flushPop d => exact .inr fun v => Nat.lt_succ_self _
  | freeIn d => exact Nat.zero_lt_one
  | nextIn d => exact .inl rfl
  | rest d =>
    simp only [deserializePQ]
    split
    · exact Nat.lt_succ_self _
    · exact Nat.zero_lt_two
  | restPush d => exact Nat.zero_lt_one
  | done o => exact trivial
  | skipPush b => exact h.elim
  | thrown i o => exact h.elim

/-- It stops only behind the last buffer. -/
theorem DeserPQ.exists_done_of_stops {σ : Type} {l : DeserPQ}
    (h : (deserializePQ (σ := σ) env ext l).Stops) : ∃ o, l = .done o := by
  cases l with
  | done o => exact ⟨o, rfl⟩
  | start | row d | rest d =>
    simp only [deserializePQ] at h
    split at h <;> exact h.elim
  | _ => exact h.elim

end Parquet

/-! ### All deserializers -/

/-- **What a deserialization thread pushes are the rows it has read, regrouped.** In every run whose
first id is a buffer and whose input buffers are well formed, the loop over the rows of an input
buffer ends at its end, the thread stops only when it is done and then its output buffers are tables
of the rows of its input buffers, and only the input queue can make it wait without end. -/
theorem batches_regrouped {env : RuntimeEnv} {ext : External}
    (h_format : env.iformat = 1 ∨ env.iformat = 2) (h_skip : env.skipDeserializer = false)
    (h_canonical : ∀ a ∈ env.schema, a.Canonical) (h_pos : 1 ≤ env.tuplesPerBuffer) {σ : Type}
    {m₀ m : Memory Buffer σ} {es : List (Event Buffer)} (h_full : Takes 0 (Full env) es) :
    (∀ X, X = csvText ∨ X = pgText → ∀ l,
      Solo 4 Deser.held (deserializeText X env ext) Deser.TakesMarker .start m₀ es l m →
      Takes 1 (WholeRows X env) es →
        (∀ d, l = .freeIn d → d.readOffset = (m.pool d.inBid).header.totalSize) ∧
        (∀ o, l = .done o → ∃ batches, (textTables X env ext).Chunks es (Remain env) batches) ∧
        ((deserializeText (σ := σ) X env ext l).Stops → ∃ o, l = .done o) ∧
        (∀ i o, l ≠ .thrown i o) ∧ Lowers (· = 1) Deser.rank l m (deserializeText X env ext l)) ∧
    ∀ l, Solo 4 DeserPQ.held (deserializePQ env ext) DeserPQ.TakesMarker .start m₀ es l m →
      Takes 1 (AcceptsParquet env ext) es →
        (∀ o, l = .done o → ∃ batches, (parquetTables env ext).Chunks es (Remain env) batches) ∧
        ((deserializePQ (σ := σ) env ext l).Stops → ∃ o, l = .done o) ∧
        (∀ i o, l ≠ .thrown i o) ∧
        Lowers (· = 1) (DeserPQ.rank ext) l m (deserializePQ env ext l) := by
  have h_width : ∀ a ∈ env.schema, a.width ≤ a.size := fun a ha => (h_canonical a ha).1.ge
  constructor
  · intro X hX l h_solo h_whole
    have h_flushes : X.flushes env.iformat = true := by
      rcases hX with rfl | rfl
      · simpa [csvText] using h_format
      · rfl
    have h_run : ¬ (X.skips ∧ env.skipDeserializer) := by simp [h_skip]
    have h := deserializeText_regroups h_format h_flushes h_run h_width h_pos h_solo h_full
      fun c hc => (h_whole c hc).rows
    refine ⟨?_, ?_, Deser.exists_done_of_stops, ?_, h.lowers h_format h_flushes h_run⟩
    · rintro d rfl
      exact h.1
    · rintro o rfl
      exact h
    · rintro i o rfl
      exact h
  · -- the same for the files that the Parquet reader has put into the buffers
    intro l h_solo h_accepts
    have h := deserializePQ_regroups h_format h_skip h_canonical h_pos h_solo h_full h_accepts
    refine ⟨?_, DeserPQ.exists_done_of_stops, ?_, h.lowers h_skip⟩
    · rintro o rfl
      exact h
    · rintro i o rfl
      exact h

/-- A pool in which buffer 1 contains a text and the others are empty. -/
def poolWith (env : RuntimeEnv) (text : List UInt8) : Memory Buffer Unit where
  pool b := if b = 1 then ⟨{ totalSize := text.length }, text⟩
    else ⟨{}, List.replicate env.payloadSize 0⟩
  world := ()

/-- A buffer has room for one row. -/
def lineEnv : RuntimeEnv := { smallEnv with bufferSize := 1, schema := [⟨.string, 513⟩] }

/-- The row `7` of a table with one column. -/
theorem whole_seven {env : RuntimeEnv} {a : SchemaAttribute} (h_schema : env.schema = [a])
    (h : WellFormedField csvText a [55]) :
    WholeRows csvText env ⟨{ totalSize := 2 }, [55, newline]⟩ := by
  refine ⟨⟨[[[55]]], fun fields hf => ?_, rfl⟩, rfl⟩
  rw [List.mem_singleton.mp hf, h_schema]
  exact ⟨List.cons_ne_nil _ _, .cons h .nil⟩

/-- A buffer has room for two rows of two columns. -/
def pairEnv : RuntimeEnv :=
  { smallEnv with bufferSize := 1, schema := [⟨.string, 400⟩, ⟨.int, 4⟩] }

/-- Three rows and two rows, a letter and a digit in each. -/
def fiveRows : List (List (List (List UInt8))) :=
  [[[[97], [49]], [[98], [50]], [[99], [51]]], [[[100], [52]], [[101], [53]]]]

/-- Buffers 1 and 2 contain the rows as text, the others are empty. -/
def fivePool : Memory Buffer Unit :=
  let text := (fiveRows.getD 1 []).flatMap (rowText csvText)
  (poolWith pairEnv ((fiveRows.getD 0 []).flatMap (rowText csvText))).write 2
    ⟨{ totalSize := text.length }, text⟩

theorem wellFormed_fiveRows :
    ∀ rows ∈ fiveRows, ∀ fields ∈ rows, WellFormedRow csvText pairEnv.schema fields := by
  have h_row : ∀ x y : UInt8, (x ≠ 44 ∧ x ≠ newline ∧ x ≠ 0) ∧ y ≠ 44 ∧ y ≠ newline ∧ y ≠ 0 →
      WellFormedRow csvText pairEnv.schema [[x], [y]] := by
    rintro x y ⟨hx, hy⟩
    refine ⟨List.cons_ne_nil _ _, .cons ⟨?_, ?_, ?_, ?_, ?_⟩ (.cons ⟨?_, ?_, ?_, ?_, ?_⟩ .nil)⟩ <;>
      simp [csvText, hx.1.symm, hx.2.1.symm, hx.2.2.symm, hy.1.symm, hy.2.1.symm, hy.2.2.symm,
        SchemaAttribute.width]
  simp only [fiveRows, List.forall_mem_cons]
  exact ⟨⟨h_row 97 49 (by decide), h_row 98 50 (by decide), h_row 99 51 (by decide),
      List.forall_mem_nil _⟩,
    ⟨h_row 100 52 (by decide), h_row 101 53 (by decide), List.forall_mem_nil _⟩,
    List.forall_mem_nil _⟩

/-- A thread reads three rows and two, and pushes two, two and one. -/
theorem batches_regrouped_pairEnv :
    ∃ es m batches, Solo 4 Deser.held (deserializeText csvText pairEnv emptyTable)
        Deser.TakesMarker .start fivePool es (.done none) m ∧
      (Event.inputs 1 es).map (fieldRows csvText ∘ Buffer.data) = fiveRows ∧
      (textTables csvText pairEnv emptyTable).Chunks es (Remain pairEnv) batches ∧
      batches.map List.length = [2, 2, 1] := by
  obtain ⟨es, l, m, h_solo, h_free, h_in, h_out, rfl⟩ := exists_solo_of_replay 4 Deser.held
    (deserializeText csvText pairEnv emptyTable) Deser.TakesMarker .start
    fivePool 30 [0, 1, 3, 2, 4, marker]
    (fun es l _ =>
      Event.inputs 0 es = List.replicate 3 ⟨{}, List.replicate pairEnv.payloadSize 0⟩ ∧
      Event.inputs 1 es = fiveRows.map (fun rows =>
        ⟨{ totalSize := (rows.flatMap (rowText csvText)).length },
          rows.flatMap (rowText csvText)⟩) ∧
      (Event.outputs 2 es).map (·.header.totalTuples) = [2, 2, 1] ∧ l = .done none)
    (by decide +kernel)
  -- the run pops three free buffers
  have h_full : Takes 0 (Full pairEnv) es := fun c hc => by
    rw [h_free] at hc
    rw [List.eq_of_mem_replicate hc]
    exact List.length_replicate
  -- and three buffers of whole lines
  have h_whole : Takes 1 (WholeRows csvText pairEnv) es := fun c hc => by
    rw [h_in] at hc
    obtain ⟨rows, h_rows, rfl⟩ := List.mem_map.mp hc
    exact ⟨⟨rows, wellFormed_fiveRows rows h_rows, List.take_length⟩,
      List.length_take.trans (Nat.min_self _)⟩
  obtain ⟨batches, h_chunks⟩ := ((batches_regrouped (.inl rfl) rfl (by decide) (by decide)
    h_full).1 csvText (.inl rfl) _ h_solo h_whole).2.1 none rfl
  refine ⟨es, m, batches, h_solo, ?_, h_chunks, ?_⟩
  · rw [h_in]
    decide +kernel
  · rw [← h_out]
    have h_holds := h_chunks.holds
    rw [textTables, tables] at h_holds
    rw [← List.forall₂_eq_eq_eq, List.forall₂_map_left_iff, List.forall₂_map_right_iff]
    exact h_holds.imp fun rows b h_table => h_table.tuples.symm

/-- The settings of `smallEnv`, with `skip_deserializer`. -/
def skipEnv : RuntimeEnv := { smallEnv with skipDeserializer := true }

/-- With `skip_deserializer` a buffer of text is pushed as it is, and a field with a byte 0 in it is
not read to its end. -/
theorem batches_not_regrouped :
    (∃ es m, Solo 4 Deser.held (deserializeText csvText skipEnv emptyTable) Deser.TakesMarker .start
        (poolWith skipEnv [55, newline]) es (.done none) m ∧
      Takes 0 (Full skipEnv) es ∧ Takes 1 (WholeRows csvText skipEnv) es ∧
      ¬ ∃ batches, (textTables csvText skipEnv emptyTable).Chunks es (Remain skipEnv) batches) ∧
    ∃ es m, Solo 4 Deser.held (deserializeText csvText lineEnv emptyTable) Deser.TakesMarker .start
        (poolWith lineEnv [0, newline]) es (.thrown (some 1) 0) m ∧
      (Event.inputs 1 es).map Buffer.data = [[0, newline]] := by
  constructor
  · -- with `skip_deserializer` the text is sent as it is
    obtain ⟨es, l, m, h_solo, h_free, h_in, h_out, rfl⟩ := exists_solo_of_replay 4
      Deser.held (deserializeText csvText skipEnv emptyTable)
      Deser.TakesMarker .start (poolWith skipEnv [55, newline]) 10 [1, marker]
      (fun es l _ => Event.inputs 0 es = [] ∧
        Event.inputs 1 es = [⟨{ totalSize := 2 }, [55, newline]⟩] ∧
        Event.outputs 2 es = [⟨{ totalSize := 2 }, [55, newline]⟩] ∧ l = .done none)
      (by decide +kernel)
    refine ⟨es, m, h_solo, fun c hc => ?_, fun c hc => ?_, ?_⟩
    · rw [h_free] at hc
      cases hc
    · rw [h_in] at hc
      rw [List.mem_singleton.mp hc]
      exact whole_seven rfl ⟨by decide, by decide, by decide, by decide, trivial⟩
    · rintro ⟨batches, h_chunks⟩
      have h_holds := h_chunks.holds
      rw [textTables, tables, h_out] at h_holds
      obtain ⟨batch, rest, h_batch, h_rest, rfl⟩ := List.forall₂_cons_right_iff.mp h_holds
      obtain rfl := List.forall₂_nil_right_iff.mp h_rest
      have h_zero : 0 = batch.length := h_batch.tuples
      rcases h_chunks.last batch rfl with h_length | ⟨h_length, -⟩
      · exact absurd (h_zero.trans h_length) (by decide)
      · omega
  · -- a value that is no number ends the thread
    obtain ⟨es, l, m, h_solo, h_in, rfl⟩ := exists_solo_of_replay 4
      Deser.held (deserializeText csvText lineEnv emptyTable)
      Deser.TakesMarker .start (poolWith lineEnv [0, newline]) 10 [0, 1]
      (fun es l _ => (Event.inputs 1 es).map Buffer.data = [[0, newline]] ∧
        l = .thrown (some 1) 0)
      (by decide +kernel)
    exact ⟨es, m, h_solo, h_in⟩

end Xdbc.Server
