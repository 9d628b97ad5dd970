import Xdbc.Client.Lengths
import Xdbc.Client.Ownership
import Xdbc.Pipeline.Regroup

/-!
# How far the output buffers are written

`serialize` leaves an output buffer when the estimate of the next line does not fit `buffer_size`
any more, and for a Parquet file when less than 1000 bytes are left. Whether a buffer is a table or
a Parquet file its header says, whatever the format of the client is. The payload may be smaller
than `buffer_size`, and a line longer than the estimate. So a write stays inside the payload if the
longest line, written behind as much text as either test lets through, does (`Fits`), and otherwise
there are rows with which it does not (`neverPast_iff`).
-/

namespace Xdbc.Client

open Bytes Pipeline

/-! ### How far one can get -/

/-- Lines of `lo` to `hi` characters are written as long as what stands is at most `room`, and at
most `rows` of them before the last: where the last one ends at most. -/
def reach (lo hi room rows : ℕ) : ℕ := min room (min (room / lo) rows * hi) + hi

theorem add_le_reach {lo hi room rows k total line : ℕ} (h_pos : 1 ≤ lo) (h_lo : k * lo ≤ total)
    (h_hi : total ≤ k * hi) (h_room : total ≤ room) (h_rows : k ≤ rows) (h_line : line ≤ hi) :
    total + line ≤ reach lo hi room rows := by
  have h_div : k ≤ room / lo := (Nat.le_div_iff_mul_le h_pos).mpr (h_lo.trans h_room)
  have h_mul : k * hi ≤ min (room / lo) rows * hi :=
    Nat.mul_le_mul_right hi (le_min h_div h_rows)
  exact add_le_add (le_min h_room (h_hi.trans h_mul)) h_line

theorem exists_reach {lo hi : ℕ} (h_le : lo ≤ hi) (room rows : ℕ) :
    ∃ k s, k ≤ rows ∧ k * lo ≤ s ∧ s ≤ k * hi ∧ s ≤ room ∧ reach lo hi room rows = s + hi := by
  have h_room : min (room / lo) rows * lo ≤ room :=
    (Nat.mul_le_mul_right lo (min_le_left _ _)).trans (Nat.div_mul_le_self room lo)
  refine ⟨min (room / lo) rows, min room (min (room / lo) rows * hi), min_le_right _ _, ?_,
    min_le_right _ _, min_le_left _ _, rfl⟩
  exact le_min h_room (Nat.mul_le_mul_left _ h_le)

/-! ### What is written, and where -/

section Writes

variable (env : RuntimeEnv) (ext : External)

/-- The text that is written next to a payload, and the offset. -/
def Ser.nextText (p : ℤ → Buffer) : Ser → Option (ℕ × List UInt8)
  | .row d =>
    if d.i < d.totalTuples ∧ ¬ d.totalSerializedBytes + maxTupleSize env > env.bufferSizeInBytes
    then
      some (d.totalSerializedBytes, rowBytes env ext d.cells (p d.bufferId).payload d.i)
    else none
  | .emit d => some (d.totalSerializedBytes, rowBytes env ext d.cells (p d.bufferId).payload d.i)
  | .pqRow d =>
    match d.rows with
    | values :: _ => some (d.totalSerializedBytes, serializeParquetRow ext env.schema values)
    | [] => none
  | _ => none

/-- The next write ends inside the payload. -/
def Ser.Inside (p : ℤ → Buffer) (l : Ser) : Prop :=
  ∀ off text, l.nextText env ext p = some (off, text) → off + text.length ≤ env.payloadSize

/-- A buffer as the decompression threads leave it, in the format its header says. -/
structure Input (b : Buffer) : Prop where
  format : 1 ≤ b.header.intermediateFormat ∧ b.header.intermediateFormat ≤ 4
  room : env.payloadSize ≤ b.payload.length
  tuples : b.header.intermediateFormat ≠ 4 → b.header.totalTuples ≤ env.tuplesPerBuffer
  /-- The doubles of a table are finite. -/
  cells : b.header.intermediateFormat ≠ 4 →
    ∀ cells, (env.iformat = 3 → ext.recordBatch b.data = some cells) →
    ∀ i < b.header.totalTuples,
      List.Forall₂ FiniteCell env.schema (rowCells env (readFrom env ext cells) b.payload i)
  /-- The doubles of a Parquet file are finite. -/
  values : b.header.intermediateFormat = 4 → ∀ rows, ext.parquetRows b.data = some rows →
    ∀ row ∈ rows, List.Forall₂ ParquetCell env.schema row

/-- In all runs over such buffers nothing is written past the end of a payload. -/
def NeverPast : Prop :=
  ∀ ext : External, ext.formatDouble = printDouble →
    ∀ (m₀ m : Memory Buffer Files) (es : List (Event Buffer)) (l : Ser),
      Solo 4 Ser.held (serialize env ext) (fun _ => False) .popIn m₀ es l m →
      Takes 2 (Input env ext) es → l.Inside env ext m.pool

def shortestLine : ℕ := (env.schema.map minAttribute).sum

def shortestParquetLine : ℕ := (env.schema.map minParquetAttribute).sum

def longestLine : ℕ := (env.schema.map maxAttribute).sum

/-- The longest line ends inside the payload, wherever it may begin: in a table, and in a Parquet
file. -/
structure Fits : Prop where
  table : reach (shortestLine env) (longestLine env) (env.bufferSizeInBytes - maxTupleSize env)
    (env.tuplesPerBuffer - 1) ≤ env.payloadSize
  parquet : reach (shortestParquetLine env) (longestLine env) (env.bufferSizeInBytes - 1000)
    env.bufferSizeInBytes ≤ env.payloadSize

variable {env ext}

/-- **No other text is written to a payload**, except that a buffer is copied as a whole. -/
theorem payload_of_work {σ : Type} {l : Ser} {bs : List ℤ}
    {f : Memory Buffer σ → Memory Buffer σ × Ser} (h : serialize env ext l = .work bs f)
    (m : Memory Buffer σ) (b : ℤ) :
    ((f m).1.pool b).payload = (m.pool b).payload ∨
      (∃ off text, l.nextText env ext m.pool = some (off, text) ∧
        ((f m).1.pool b).payload = put (m.pool b).payload off text) ∨
      ∃ d, l = .assign d ∧ (f m).1.pool b = m.pool d.serializedBufferId := by
  have h_header : ∀ (m : Memory Buffer σ) (o : ℤ) (x : Header),
      ((m.write o { m.pool o with header := x }).pool b).payload = (m.pool b).payload := fun m o x => by
    rw [Memory.write_pool]
    split
    · next h_eq => rw [h_eq]
    · rfl
  have h_text : ∀ (o : ℤ) (off : ℕ) (text : List UInt8) (x : Header),
      ((m.write o { header := x, payload := put (m.pool o).payload off text }).pool b).payload
        = (m.pool b).payload ∨
      ((m.write o { header := x, payload := put (m.pool o).payload off text }).pool b).payload
        = put (m.pool b).payload off text := fun o off text x => by
    rw [Memory.write_pool]
    split
    · next h_eq => exact .inr (by rw [h_eq])
    · exact .inl rfl
  cases l with
  | row d =>
    simp only [serialize] at h
    split at h
    · next h_more =>
      -- the next line is written, or the header of a full buffer
      split at h
      · cases h
        exact .inl (h_header _ _ _)
      · next h_room =>
        cases h
        refine (h_text _ _ _ _).imp_right fun h_put => .inl ⟨_, _, ?_, h_put⟩
        exact if_pos ⟨h_more, h_room⟩
    · split at h
      · cases h
        exact .inl (h_header _ _ _)
      · cases h
        exact .inl rfl
  -- the line that did not fit, written to the next buffer
  | emit d =>
    cases h
    exact (h_text _ _ _ _).imp_right fun h_put => .inl ⟨_, _, rfl, h_put⟩
  | assign d =>
    cases h
    change ((m.write d.outBuffer (m.pool d.serializedBufferId)).pool b).payload = _ ∨ _ ∨
      ∃ _, _ ∧ (m.write d.outBuffer (m.pool d.serializedBufferId)).pool b = _
    rw [Memory.write_pool]
    split
    · -- the buffer to be filled is overwritten with the one that has been pushed
      exact .inr (.inr ⟨d, rfl, rfl⟩)
    · exact .inl rfl
  | pqRow d =>
    obtain ⟨b', o, rows, n, total⟩ := d
    cases rows with
    | nil =>
      simp only [serialize] at h
      split at h
      · cases h
        exact .inl (h_header _ _ _)
      · cases h
        exact .inl rfl
    | cons row rows =>
      -- the line of a row of the file, and the header if the buffer is full
      cases h
      simp only [PqSerVars.emitRow]
      have h_put := h_text o total (serializeParquetRow ext env.schema row) (m.pool o).header
      split
      · rw [PqSerVars.writeHeader, h_header]
        exact h_put.imp_right fun h_put => .inl ⟨_, _, rfl, h_put⟩
      · exact h_put.imp_right fun h_put => .inl ⟨_, _, rfl, h_put⟩
  | inspect b' =>
    cases h
    exact .inl rfl
  | pqOpen b' n o =>
    cases h
    dsimp only
    split <;> exact .inl rfl
  | thrown b' o =>
    cases h
    exact .inl rfl
  | _ => simp [serialize] at h

end Writes

/-! ### What is written between two flushes -/

section Bounded

variable (env : RuntimeEnv) (ext : External)

/-- The doubles of the table in hand are finite, and its buffer is not the one written to. -/
structure SerVars.Finite (p : ℤ → Buffer) (d : SerVars) : Prop where
  tuples : d.totalTuples ≤ env.tuplesPerBuffer
  cells : ∀ i < d.totalTuples, List.Forall₂ FiniteCell env.schema
    (rowCells env (readFrom env ext d.cells) (p d.bufferId).payload i)
  apart : d.bufferId ≠ d.outBuffer

/-- What stands in the output buffer are lines. -/
def SerVars.Filled (d : SerVars) : Prop :=
  ∃ k ≤ d.i, k * shortestLine env ≤ d.totalSerializedBytes ∧
    d.totalSerializedBytes ≤ k * longestLine env

/-- The rest of a Parquet file has finite doubles. -/
def PqSerVars.Finite (d : PqSerVars) : Prop :=
  ∀ values ∈ d.rows, List.Forall₂ ParquetCell env.schema values

/-- What stands in the output buffer are lines, and there is room behind them. -/
structure PqSerVars.Filled (d : PqSerVars) : Prop where
  lines : ∃ k, k * shortestParquetLine env ≤ d.totalSerializedBytes ∧
    d.totalSerializedBytes ≤ k * longestLine env
  room : d.totalSerializedBytes ≤ env.bufferSizeInBytes - 1000

/-- What holds at a program point of a run over finite doubles. -/
def Ser.Bounded (p : ℤ → Buffer) : Ser → Prop
  | .inspect b => Input env ext (p b)
  | .popOut b n cells => n ≤ env.tuplesPerBuffer ∧ ∀ i < n, List.Forall₂ FiniteCell env.schema
    (rowCells env (readFrom env ext cells) (p b).payload i)
  | .row d => d.Finite env ext p ∧ d.Filled env
  | .flushPush d => d.Finite env ext p ∧ d.i < d.totalTuples
  | .flushPop d => d.Finite env ext p ∧ d.i < d.totalTuples
  | .assign d => d.Finite env ext p ∧ d.i < d.totalTuples
  | .emit d => d.Finite env ext p ∧ d.i < d.totalTuples ∧ d.totalSerializedBytes = 0
  | .pqPopOut b n => ∀ rows, ext.parquetRows ((p b).payload.take n) = some rows →
    ∀ values ∈ rows, List.Forall₂ ParquetCell env.schema values
  | .pqOpen b n _ => ∀ rows, ext.parquetRows ((p b).payload.take n) = some rows →
    ∀ values ∈ rows, List.Forall₂ ParquetCell env.schema values
  | .pqRow d => d.Finite env ∧ d.Filled env
  | .pqFlushPush d => d.Finite env
  | .pqFlushPop d => d.Finite env
  | _ => True

variable {env ext}

theorem SerVars.Finite.congr {p p' : ℤ → Buffer} {d : SerVars}
    (h_own : p' d.bufferId = p d.bufferId) (h : d.Finite env ext p) : d.Finite env ext p' := by
  refine ⟨h.tuples, ?_, h.apart⟩
  rw [h_own]
  exact h.cells

theorem Ser.Bounded.congr {p p' : ℤ → Buffer} {l : Ser} (h_own : ∀ b ∈ l.held, p' b = p b)
    (h : l.Bounded env ext p) : l.Bounded env ext p' := by
  cases l with
  | inspect b =>
    rw [Ser.Bounded, h_own b (Multiset.mem_singleton_self b)]
    exact h
  | popOut b n cells =>
    rw [Ser.Bounded, h_own b (Multiset.mem_singleton_self b)]
    exact h
  | pqPopOut b n =>
    rw [Ser.Bounded, h_own b (Multiset.mem_singleton_self b)]
    exact h
  | pqOpen b n o =>
    rw [Ser.Bounded, h_own b (by simp [held])]
    exact h
  | row d => exact ⟨h.1.congr (h_own _ (by simp [held])), h.2⟩
  | flushPush d => exact ⟨h.1.congr (h_own _ (by simp [held])), h.2⟩
  | flushPop d => exact ⟨h.1.congr (h_own _ (Multiset.mem_singleton_self _)), h.2⟩
  | assign d => exact ⟨h.1.congr (h_own _ (by simp [held])), h.2⟩
  | emit d => exact ⟨h.1.congr (h_own _ (by simp [held])), h.2⟩
  | _ => exact h

/-! ### Lengths of lines -/

/-- The line of a row of finite doubles is between the shortest and the longest. -/
theorem SerVars.Finite.length_rowBytes (h_print : ext.formatDouble = printDouble)
    {p : ℤ → Buffer} {d : SerVars} (h : d.Finite env ext p) (hi : d.i < d.totalTuples) :
    shortestLine env ≤ (rowBytes env ext d.cells (p d.bufferId).payload d.i).length ∧
      (rowBytes env ext d.cells (p d.bufferId).payload d.i).length ≤ longestLine env := by
  rw [rowBytes_eq_lineOf, lineOf_eq h_print]
  exact (tablePrinter h_print).length_lineWith (h.cells d.i hi)

theorem length_serializeParquetRow (h_print : ext.formatDouble = printDouble)
    {values : List (List UInt8)} (h : List.Forall₂ ParquetCell env.schema values) :
    shortestParquetLine env ≤ (serializeParquetRow ext env.schema values).length ∧
      (serializeParquetRow ext env.schema values).length ≤ longestLine env := by
  rw [serializeParquetRow_eq h_print]
  exact (parquetPrinter h_print).length_lineWith h

theorem one_le_shortestLine (h_schema : env.schema ≠ []) : 1 ≤ shortestLine env :=
  (tablePrinter (rfl : ({ decoders := storingDecoders, formatDouble := printDouble } :
    External).formatDouble = printDouble)).one_le_minLine h_schema

theorem one_le_shortestParquetLine (h_schema : env.schema ≠ []) : 1 ≤ shortestParquetLine env :=
  (parquetPrinter (rfl : ({ decoders := storingDecoders, formatDouble := printDouble } :
    External).formatDouble = printDouble)).one_le_minLine h_schema

/-- A buffer with room for a tuple has a schema. -/
theorem schema_ne_nil (h_pos : 1 ≤ env.tuplesPerBuffer) : env.schema ≠ [] := by
  intro h_nil
  rw [RuntimeEnv.tuplesPerBuffer, Xdbc.tuplesPerBuffer, h_nil, Xdbc.tupleSize, List.map_nil,
    List.sum_nil, Nat.div_zero] at h_pos
  omega

/-! ### Every step keeps it -/

/-- Behind a line there are lines. -/
theorem SerVars.emitRow_bounded {σ : Type} (h_print : ext.formatDouble = printDouble)
    {m : Memory Buffer σ} {d : SerVars} (h : d.Finite env ext m.pool) (hi : d.i < d.totalTuples)
    (h_filled : d.Filled env) :
    (d.emitRow env ext m).2.Bounded env ext (d.emitRow env ext m).1.pool := by
  obtain ⟨k, hk, h_lo, h_hi⟩ := h_filled
  obtain ⟨h_short, h_long⟩ := h.length_rowBytes h_print hi
  refine ⟨⟨h.tuples, ?_, h.apart⟩, k + 1, Nat.succ_le_succ hk, ?_, ?_⟩
  · simp only [emitRow]
    rw [m.write_pool_of_ne h.apart]
    exact h.cells
  · rw [Nat.succ_mul]
    exact add_le_add h_lo h_short
  · rw [Nat.succ_mul]
    exact add_le_add h_hi h_long

theorem PqSerVars.emitRow_bounded {σ : Type} (h_print : ext.formatDouble = printDouble)
    {m : Memory Buffer σ} {d : PqSerVars} {values : List (List UInt8)}
    (h : d.Finite env) (h_values : List.Forall₂ ParquetCell env.schema values)
    (h_filled : d.Filled env) :
    (d.emitRow env ext values m).2.Bounded env ext (d.emitRow env ext values m).1.pool := by
  obtain ⟨k, h_lo, h_hi⟩ := h_filled.lines
  obtain ⟨h_short, h_long⟩ := length_serializeParquetRow h_print h_values
  simp only [emitRow]
  split
  · exact h
  · next h_room =>
    refine ⟨h, ⟨k + 1, ?_, ?_⟩, ?_⟩
    · rw [Nat.succ_mul]
      exact add_le_add h_lo h_short
    · rw [Nat.succ_mul]
      exact add_le_add h_hi h_long
    · change d.totalSerializedBytes + _ ≤ _
      omega

/-- The dispatch on the format. -/
theorem inspectHeader_bounded {p : ℤ → Buffer} {b : ℤ} (h : Input env ext (p b)) :
    (inspectHeader env ext b (p b)).Bounded env ext p := by
  simp only [inspectHeader]
  split
  · next h_table =>
    have h_format : (p b).header.intermediateFormat ≠ 4 := by omega
    split
    · split
      · trivial
      · next cells h_cells => exact ⟨h.tuples h_format, h.cells h_format cells fun _ => h_cells⟩
    · next h_rows =>
      exact ⟨h.tuples h_format, h.cells h_format _ fun h_batch => absurd h_batch h_rows⟩
  · split
    · next h_parquet => exact h.values h_parquet
    · trivial

/-- **Between two flushes only lines are written.** -/
theorem serialize_inBounds (h_print : ext.formatDouble = printDouble)
    {m₀ m : Memory Buffer Files} {es : List (Event Buffer)} {l : Ser}
    (h : Solo 4 Ser.held (serialize env ext) (fun _ => False) .popIn m₀ es l m)
    (h_in : Takes 2 (Input env ext) es) : l.Bounded env ext m.pool := by
  induction h with
  | start => trivial
  | others _ h_own ih => exact (ih h_in).congr h_own
  | @pop es l m q k v _ hop h_free h_new _ ih =>
    have h_bounded := ih h_in.of_append
    cases l with
    | popIn =>
      cases hop
      dsimp only
      split
      · trivial
      · next hv =>
        -- an input buffer whose doubles are finite
        split
        · trivial
        · exact h_in.popped hv
    | popOut b n cells =>
      cases hop
      -- the output buffer is not the input buffer, and nothing is written to it
      have h_apart : v ∉ ({b} : Multiset ℤ) := h_new (by decide) (h_free rfl)
      rw [Multiset.mem_singleton] at h_apart
      exact ⟨⟨h_bounded.1, h_bounded.2, Ne.symm h_apart⟩, 0, le_rfl,
        by rw [Nat.zero_mul], by rw [Nat.zero_mul]⟩
    | flushPop d =>
      cases hop
      exact ⟨⟨h_bounded.1.tuples, h_bounded.1.cells, h_bounded.1.apart⟩, h_bounded.2⟩
    | pqPopOut b n => cases hop; exact h_bounded
    | pqFlushPop d =>
      cases hop
      exact ⟨h_bounded, ⟨0, by rw [Nat.zero_mul], by rw [Nat.zero_mul]⟩, Nat.zero_le _⟩
    | row d =>
      simp only [serialize] at hop
      repeat' split at hop
      all_goals cases hop
    | pqRow d =>
      simp only [serialize] at hop
      repeat' split at hop
      all_goals cases hop
    | _ => cases hop
  | @push es l m q v l' _ hop _ ih =>
    have h_bounded := ih (by rwa [Takes, Event.inputs_pushed] at h_in)
    cases l with
    | flushPush d => cases hop; exact h_bounded
    | pqFlushPush d => cases hop; exact h_bounded
    | row d =>
      simp only [serialize] at hop
      repeat' split at hop
      all_goals cases hop
    | pqRow d =>
      simp only [serialize] at hop
      repeat' split at hop
      all_goals cases hop
    | _ => cases hop <;> trivial
  | @work es l m bs f _ hop _ ih =>
    have h_bounded := ih h_in
    cases l with
    | inspect b => cases hop; exact inspectHeader_bounded h_bounded
    | row d =>
      obtain ⟨h_finite, h_filled⟩ := h_bounded
      simp only [serialize] at hop
      split at hop
      · next h_more =>
        -- one more row, if there is room for it
        split at hop
        · cases hop
          exact ⟨h_finite.congr (m.write_pool_of_ne h_finite.apart _), h_more⟩
        · cases hop
          exact d.emitRow_bounded h_print h_finite h_more h_filled
      · split at hop
        · cases hop
          trivial
        · cases hop
          trivial
    | assign d =>
      cases hop
      obtain ⟨h_finite, h_more⟩ := h_bounded
      -- the copy overwrites the output buffer only
      have h_kept := h_finite.congr (m.write_pool_of_ne h_finite.apart (m.pool d.serializedBufferId))
      exact ⟨⟨h_kept.tuples, h_kept.cells, h_kept.apart⟩, h_more, rfl⟩
    | emit d =>
      cases hop
      obtain ⟨h_finite, h_more, h_zero⟩ := h_bounded
      -- the first line of a buffer
      refine d.emitRow_bounded h_print h_finite h_more ⟨0, Nat.zero_le _, ?_, ?_⟩
      · rw [Nat.zero_mul]
        exact Nat.zero_le _
      · rw [h_zero]
        exact Nat.zero_le _
    | pqOpen b n o =>
      cases hop
      dsimp only
      split
      · trivial
      · next rows h_rows =>
        -- the rows of the file, of which none is written
        exact ⟨h_bounded rows h_rows, ⟨0, by rw [Nat.zero_mul], by rw [Nat.zero_mul]⟩,
          Nat.zero_le _⟩
    | pqRow d =>
      obtain ⟨h_values, h_filled⟩ := h_bounded
      simp only [serialize] at hop
      split at hop
      · next values rows h_rows =>
        -- one more row of the file
        cases hop
        rw [PqSerVars.Finite, h_rows] at h_values
        obtain ⟨h_first, h_rest⟩ := List.forall_mem_cons.mp h_values
        exact PqSerVars.emitRow_bounded h_print h_rest h_first ⟨h_filled.lines, h_filled.room⟩
      · split at hop
        · cases hop
          trivial
        · cases hop
          trivial
    | thrown b o => cases hop; trivial
    | _ => cases hop

/-- If the longest line fits wherever it may begin, then the next write does. -/
theorem Ser.Bounded.inside (h_print : ext.formatDouble = printDouble) (h_fits : Fits env)
    (h_pos : 1 ≤ env.tuplesPerBuffer) {p : ℤ → Buffer} {l : Ser} (h : l.Bounded env ext p) :
    l.Inside env ext p := by
  have h_schema := schema_ne_nil h_pos
  intro off text h_next
  cases l with
  | row d =>
    obtain ⟨h_finite, k, hk, h_lo, h_hi⟩ := h
    simp only [nextText] at h_next
    split at h_next
    · next h_row =>
      -- the table test lets a row begin anywhere up to its bound
      cases h_next
      have h_more := h_row.1.trans_le h_finite.tuples
      exact (add_le_reach (one_le_shortestLine h_schema) h_lo h_hi (by omega) (by omega)
        (h_finite.length_rowBytes h_print h_row.1).2).trans h_fits.table
    · cases h_next
  | emit d =>
    obtain ⟨h_finite, h_more, h_zero⟩ := h
    cases h_next
    rw [h_zero]
    exact (add_le_reach (k := 0) (one_le_shortestLine h_schema) (by rw [Nat.zero_mul])
      (Nat.zero_le _) (Nat.zero_le _) (Nat.zero_le _)
      (h_finite.length_rowBytes h_print h_more).2).trans h_fits.table
  | pqRow d =>
    obtain ⟨h_values, ⟨k, h_lo, h_hi⟩, h_room⟩ := h
    simp only [nextText] at h_next
    -- and so does the test for a file
    split at h_next
    · next values rows h_rows =>
      cases h_next
      rw [PqSerVars.Finite, h_rows] at h_values
      have h_short := one_le_shortestParquetLine h_schema
      have h_count : k ≤ env.bufferSizeInBytes :=
        (Nat.le_mul_of_pos_right k h_short).trans (h_lo.trans (h_room.trans (Nat.sub_le _ _)))
      exact (add_le_reach h_short h_lo h_hi h_room h_count
        (length_serializeParquetRow h_print (h_values values List.mem_cons_self)).2).trans
        h_fits.parquet
    · cases h_next
  | _ => cases h_next

end Bounded

/-! ### Rows that go as far as one can get -/

section Given

/-- A client that prints doubles with two decimals, and whose record batches and Parquet files all
have these rows, as has the memory behind stray pointers. -/
def givenExt (rows : List (List (List UInt8))) : External where
  decoders := storingDecoders
  formatDouble := printDouble
  recordBatch _ := some fun i j => (rows.getD i []).getD j []
  parquetRows _ := some rows
  staleData i j := (rows.getD i []).getD j []

/-- A buffer with these rows, in the format of its header. -/
def givenInput (env : RuntimeEnv) (format : ℕ) (rows : List (List (List UInt8))) : Buffer where
  header :=
    { intermediateFormat := format, totalTuples := rows.length, totalSize := env.payloadSize }
  payload := (layout env).writeRows (columns env.schema 0) 0 rows
    (List.replicate (max env.payloadSize (env.tuplesPerBuffer * totalRowSize env)) 0)

variable {env : RuntimeEnv} {rows : List (List (List UInt8))} {format : ℕ}

/-- The data of a row have the widths of the attributes. -/
def Sized (schema : List SchemaAttribute) : List (List UInt8) → Prop :=
  List.Forall₂ (fun a data => data.length = a.width) schema

theorem Sized.widths {schema : List SchemaAttribute} {row : List (List UInt8)} (off : ℕ)
    (h : Sized schema row) : Layout.Widths (columns schema off) row := by
  induction h generalizing off with
  | nil => exact .nil
  | cons h_data _ ih => exact .cons h_data (ih _)

theorem lineOf_givenExt (schema : List SchemaAttribute) (row : List (List UInt8)) :
    lineOf (givenExt rows) schema row = lineOf (givenExt []) schema row := by
  induction schema generalizing row with
  | nil => rfl
  | cons a schema ih =>
    cases row with
    | nil => rfl
    | cons data row =>
      rw [lineOf, lineOf, ih]
      rfl

theorem serializeParquetRow_givenExt (schema : List SchemaAttribute) (row : List (List UInt8)) :
    serializeParquetRow (givenExt rows) schema row = serializeParquetRow (givenExt []) schema row := by
  induction schema generalizing row with
  | nil => rfl
  | cons a schema ih =>
    cases row with
    | nil => rfl
    | cons value row =>
      rw [serializeParquetRow, serializeParquetRow, ih]
      rfl

/-- The cells of the columns of a record batch, or of none. -/
def givenCells (env : RuntimeEnv) (rows : List (List (List UInt8))) : ℕ → ℕ → List UInt8 :=
  if env.iformat = 3 then fun i j => (rows.getD i []).getD j [] else fun _ _ => []

variable (format) in
/-- The rows of the buffer are the given ones. -/
theorem rowCells_givenInput (cells : ℕ → ℕ → List UInt8)
    (h_cells : env.iformat = 3 → cells = fun i j => (rows.getD i []).getD j [])
    (h_sized : ∀ row ∈ rows, Sized env.schema row) (h_room : rows.length ≤ env.tuplesPerBuffer)
    {i : ℕ} {row : List (List UInt8)} (h : rows[i]? = some row) :
    rowCells env (readFrom env (givenExt rows) cells) (givenInput env format rows).payload i
      = row := by
  rw [rowCells]
  -- column by column or row by row the cells are where the layout puts them
  split
  · have h_read : (layout env).readRow (columns env.schema 0) (0 + i)
        (givenInput env format rows).payload = row := (layout env).readRow_writeRows
      (fun vs hvs => (h_sized vs hvs).widths 0) (columns_pairwise env.schema 0) (holds_columns env)
      (by rw [Nat.zero_add]; exact h_room)
      (by rw [List.length_replicate]; exact le_max_right _ _) h
    rwa [Nat.zero_add] at h_read
  · -- a batch is read back as the rows it was made of
    have h_given : readFrom env (givenExt rows) cells = fun i j => (rows.getD i []).getD j [] := by
      rw [readFrom]
      split
      · next h_batch => exact h_cells h_batch
      · rfl
    have h_length : env.schema.length = row.length :=
      (h_sized row (List.mem_of_getElem? h)).length_eq
    rw [h_given, h_length]
    refine List.ext_getElem? fun j => ?_
    rw [List.getElem?_map]
    dsimp only
    rw [List.getD_eq_getElem?_getD, h, Option.getD_some]
    rcases Nat.lt_or_ge j row.length with hj | hj
    · rw [List.getElem?_range' hj, Option.map_some, List.getD_eq_getElem?_getD, Nat.one_mul,
        Nat.zero_add, List.getElem?_eq_getElem hj, Option.getD_some]
    · rw [List.getElem?_eq_none hj, List.getElem?_eq_none (by rwa [List.length_range'])]
      rfl

theorem room_givenInput : env.payloadSize ≤ (givenInput env format rows).payload.length := by
  rw [givenInput, Layout.length_writeRows, List.length_replicate]
  exact le_max_left _ _

/-- The buffer may be received. -/
theorem input_givenInput_of_table
    (h_rows : ∀ row ∈ rows, List.Forall₂ (fun a data => data.length = a.width ∧ FiniteCell a data)
      env.schema row)
    (h_room : rows.length ≤ env.tuplesPerBuffer) :
    Input env (givenExt rows) (givenInput env 1 rows) := by
  have h_sized : ∀ row ∈ rows, Sized env.schema row := fun row h =>
    (h_rows row h).imp fun _ _ h => h.1
  have h_table : (givenInput env 1 rows).header.intermediateFormat = 1 := rfl
  refine ⟨by omega, room_givenInput, fun _ => h_room, fun _ cells h_cells i hi => ?_,
    fun h => by omega⟩
  obtain ⟨row, h_row⟩ : ∃ row, rows[i]? = some row := ⟨_, List.getElem?_eq_getElem hi⟩
  rw [rowCells_givenInput _ _ (fun h => (Option.some.inj (h_cells h)).symm) h_sized h_room h_row]
  exact (h_rows row (List.mem_of_getElem? h_row)).imp fun _ _ h => h.2

theorem input_givenInput_of_parquet
    (h_rows : ∀ row ∈ rows, List.Forall₂ ParquetCell env.schema row) :
    Input env (givenExt rows) (givenInput env 4 rows) := by
  have h_parquet : (givenInput env 4 rows).header.intermediateFormat = 4 := rfl
  refine ⟨by omega, room_givenInput, fun h => absurd rfl h, fun h => absurd rfl h,
    fun _ rows' h => ?_⟩
  cases h
  exact h_rows

theorem inspectHeader_givenInput (b : ℤ) :
    inspectHeader env (givenExt rows) b (givenInput env 1 rows)
      = .popOut b rows.length (givenCells env rows) := by
  have h_table : (givenInput env 1 rows).header.intermediateFormat = 1 := rfl
  rw [inspectHeader, if_pos (.inl h_table), givenCells]
  split
  · rfl
  · rfl

/-- The lines of the first rows. -/
theorem tableBytes_givenInput
    (h_sized : ∀ row ∈ rows, Sized env.schema row) (h_room : rows.length ≤ env.tuplesPerBuffer)
    {k : ℕ} (hk : k ≤ rows.length) :
    tableBytes env (givenExt rows) (givenCells env rows) (givenInput env format rows).payload k
      = (rows.take k).flatMap (lineOf (givenExt []) env.schema) := by
  induction k with
  | zero => rfl
  | succ k ih =>
    have h_row := List.getElem?_eq_getElem hk
    have h_cells := rowCells_givenInput format (givenCells env rows)
      (fun h => if_pos h) h_sized h_room h_row
    rw [tableBytes_succ, ih (Nat.le_of_succ_le hk), List.take_add_one, h_row, Option.toList_some,
      List.flatMap_append, List.flatMap_singleton, rowBytes_eq_lineOf, h_cells, lineOf_givenExt]

end Given

/-! ### A run over the rows -/

section Runs

variable {env : RuntimeEnv} {rows : List (List (List UInt8))} {format : ℕ}

/-- The runs of `serialize` over the given rows. -/
def GivenRun (env : RuntimeEnv) (format : ℕ) (rows : List (List (List UInt8))) (l : Ser) : Prop :=
  ∃ (m₀ m : Memory Buffer Files) (es : List (Event Buffer)),
    Solo 4 Ser.held (serialize env (givenExt rows)) (fun _ => False) .popIn m₀ es l m ∧
      Takes 2 (Input env (givenExt rows)) es ∧ m.pool 1 = givenInput env format rows

theorem GivenRun.pop {l : Ser} {q : ℕ} {k : ℤ → Ser} (h : GivenRun env format rows l)
    (hop : serialize (σ := Files) env (givenExt rows) l = .pop q k) (hq : q ≠ 2)
    (h_new : (2 : ℤ) ∉ l.held) : GivenRun env format rows (k 2) := by
  obtain ⟨m₀, m, es, h_run, h_in, h_pool⟩ := h
  exact ⟨m₀, m, _, h_run.pop hop (fun _ => by decide) (fun _ _ => h_new) id, h_in.pop_of_ne hq,
    h_pool⟩

theorem GivenRun.push {l l' : Ser} {q : ℕ} {v : ℤ} (h : GivenRun env format rows l)
    (hop : serialize (σ := Files) env (givenExt rows) l = .push q v l') :
    GivenRun env format rows l' := by
  obtain ⟨m₀, m, es, h_run, h_in, h_pool⟩ := h
  exact ⟨m₀, m, _, h_run.push hop id, h_in.pushed, h_pool⟩

/-- An operation that leaves the input buffer. -/
theorem GivenRun.work {l l' : Ser} {bs : List ℤ}
    {f : Memory Buffer Files → Memory Buffer Files × Ser} (h : GivenRun env format rows l)
    (hop : serialize env (givenExt rows) l = .work bs f)
    (h_next : ∀ m : Memory Buffer Files, m.pool 1 = givenInput env format rows →
      (f m).2 = l' ∧ (f m).1.pool 1 = m.pool 1) : GivenRun env format rows l' := by
  obtain ⟨m₀, m, es, h_run, h_in, h_pool⟩ := h
  obtain ⟨rfl, h_kept⟩ := h_next m h_pool
  exact ⟨m₀, _, es, h_run.work hop id, h_in, h_kept.trans h_pool⟩

/-- The input buffer is popped. -/
theorem givenRun_inspect (h_skip : env.skipSerializer = false)
    (h_input : Input env (givenExt rows) (givenInput env format rows)) :
    GivenRun env format rows (.inspect 1) := by
  let m₀ : Memory Buffer Files := ⟨fun _ => givenInput env format rows, fun _ => []⟩
  have h_none : Solo 4 Ser.held (serialize env (givenExt rows)) (fun _ => False) .popIn m₀ []
      .popIn m₀ := .start
  have h_pop := h_none.pop (v := 1) rfl (fun h => absurd h (by decide))
    (fun _ _ => Multiset.notMem_zero _) id
  rw [if_neg (by decide), if_neg (by rw [h_skip]; decide)] at h_pop
  exact ⟨m₀, m₀, _, h_pop, Takes.pop nofun h_input, rfl⟩

/-- Row `i` of the table is reached without a flush. -/
theorem givenRun_row (h_inspect : GivenRun env 1 rows (.inspect 1)) {i : ℕ} (hi : i ≤ rows.length)
    (h_room : i = 0 ∨ (tableBytes env (givenExt rows) (givenCells env rows)
      (givenInput env 1 rows).payload i).length + maxTupleSize env ≤ env.bufferSizeInBytes) :
    GivenRun env 1 rows (.row ⟨1, 2, 2, rows.length, givenCells env rows, i,
      (tableBytes env (givenExt rows) (givenCells env rows)
        (givenInput env 1 rows).payload i).length⟩) := by
  induction i with
  | zero =>
    have h_out : GivenRun env 1 rows (.popOut 1 rows.length (givenCells env rows)) :=
      h_inspect.work rfl fun m h_pool => ⟨by
        dsimp only
        rw [h_pool, inspectHeader_givenInput], rfl⟩
    exact h_out.pop rfl (by decide) (by simp [Ser.held])
  -- the next row has room, so it follows without a flush
  | succ i ih =>
    have h_succ : tableBytes env (givenExt rows) (givenCells env rows)
        (givenInput env 1 rows).payload (i + 1) = _ := tableBytes_succ _ _ _
    rw [h_succ, List.length_append] at h_room ⊢
    have h_row := ih (Nat.le_of_succ_le hi) (.inr (by omega))
    refine h_row.work ((if_pos hi).trans (if_neg (by dsimp only; omega))) fun m h_pool => ⟨?_, ?_⟩
    · simp only [SerVars.emitRow, h_pool]
    · exact m.write_pool_of_ne (show (1 : ℤ) ≠ 2 by decide) _

/-- Row `i` of the Parquet file is reached without a flush. -/
theorem givenRun_pqRow (h_inspect : GivenRun env 4 rows (.inspect 1)) {i : ℕ} (hi : i ≤ rows.length)
    (h_room : i = 0 ∨ ((rows.take i).flatMap (serializeParquetRow (givenExt []) env.schema)).length
      + 1000 ≤ env.bufferSizeInBytes) :
    GivenRun env 4 rows (.pqRow ⟨1, 2, rows.drop i, i,
      ((rows.take i).flatMap (serializeParquetRow (givenExt []) env.schema)).length⟩) := by
  induction i with
  | zero =>
    have h_out : GivenRun env 4 rows (.pqPopOut 1 env.payloadSize) :=
      h_inspect.work rfl fun m h_pool => ⟨by
        dsimp only
        rw [h_pool]
        rfl, rfl⟩
    have h_open := h_out.pop rfl (by decide) (by simp [Ser.held])
    exact h_open.work rfl fun m h_pool => ⟨rfl, rfl⟩
  -- the next row still fits: there is no flush
  | succ i ih =>
    have h_take := List.take_add_one (l := rows) (i := i)
    have h_row := List.getElem?_eq_getElem hi
    rw [h_row, Option.toList_some] at h_take
    rw [h_take, List.flatMap_append, List.flatMap_singleton, List.length_append] at h_room ⊢
    have h_line := ih (Nat.le_of_succ_le hi) (.inr (by omega))
    rw [List.drop_eq_getElem_cons hi] at h_line
    refine h_line.work rfl fun m h_pool => ?_
    simp only [PqSerVars.emitRow, serializeParquetRow_givenExt]
    rw [if_neg (by omega)]
    exact ⟨rfl, m.write_pool_of_ne (show (1 : ℤ) ≠ 2 by decide) _⟩

/-- A run is among those that never write past the end. -/
theorem NeverPast.inside (h : NeverPast env) {l : Ser} (h_run : GivenRun env format rows l) :
    ∃ p : ℤ → Buffer, p 1 = givenInput env format rows ∧ l.Inside env (givenExt rows) p := by
  obtain ⟨m₀, m, es, h_solo, h_in, h_pool⟩ := h_run
  exact ⟨m.pool, h_pool, h _ rfl m₀ m es l h_solo h_in⟩

/-- If nothing is written past the end of a table, then the longest line fits. -/
theorem NeverPast.reach_le_of_table (h : NeverPast env) (h_skip : env.skipSerializer = false)
    (h_pos : 1 ≤ env.tuplesPerBuffer) :
    reach (shortestLine env) (longestLine env) (env.bufferSizeInBytes - maxTupleSize env)
      (env.tuplesPerBuffer - 1) ≤ env.payloadSize := by
  let P := tablePrinter (rfl : (givenExt []).formatDouble = printDouble)
  obtain ⟨k, s, hk, h_lo, h_hi, h_room, h_reach⟩ := exists_reach (P.minLine_le_maxLine env.schema)
    (env.bufferSizeInBytes - maxTupleSize env) (env.tuplesPerBuffer - 1)
  rw [show reach (shortestLine env) (longestLine env) _ _ = s + longestLine env from h_reach]
  -- the rows in front of the last, and the last
  obtain ⟨front, h_length, h_front, h_sum⟩ := P.exists_lines h_lo h_hi
  obtain ⟨last, h_last, h_line⟩ := P.exists_lineWith (P.minLine_le_maxLine env.schema) le_rfl
  have h_rows : ∀ row ∈ front ++ [last], List.Forall₂ P.good env.schema row :=
    List.forall_mem_append.mpr ⟨h_front, List.forall_mem_singleton.mpr h_last⟩
  have h_count : (front ++ [last]).length = k + 1 := by
    rw [List.length_append, h_length, List.length_singleton]
  have h_fit : (front ++ [last]).length ≤ env.tuplesPerBuffer := by omega
  have h_sized : ∀ row ∈ front ++ [last], Sized env.schema row := fun row h =>
    (h_rows row h).imp fun _ _ h => h.1
  have h_inspect := givenRun_inspect h_skip (input_givenInput_of_table h_rows h_fit)
  have h_lines : ∀ row, lineOf (givenExt []) env.schema row = P.lineWith env.schema row :=
    lineOf_eq rfl env.schema
  -- what stands before the last row is written
  have h_before : (tableBytes env (givenExt (front ++ [last])) (givenCells env (front ++ [last]))
      (givenInput env 1 (front ++ [last])).payload k).length = s := by
    rw [tableBytes_givenInput h_sized h_fit (by omega), ← h_length, List.take_left,
      List.length_flatMap, ← h_sum]
    exact congrArg List.sum (List.map_congr_left fun row _ => congrArg List.length (h_lines row))
  have h_next : (rowBytes env (givenExt (front ++ [last])) (givenCells env (front ++ [last]))
      (givenInput env 1 (front ++ [last])).payload k).length = longestLine env := by
    have h_at : (front ++ [last])[k]? = some last := by
      rw [← h_length]
      exact List.getElem?_concat_length
    have h_cells := rowCells_givenInput 1 (givenCells env (front ++ [last]))
      (fun h => if_pos h) h_sized h_fit h_at
    rw [rowBytes_eq_lineOf, h_cells, lineOf_givenExt, h_lines]
    exact h_line
  by_cases h_estimate : maxTupleSize env ≤ env.bufferSizeInBytes
  · have h_row := givenRun_row h_inspect (i := k) (by omega) (.inr (by omega))
    obtain ⟨p, h_pool, h_inside⟩ := h.inside h_row
    have h_end := h_inside s _ (by
      rw [Ser.nextText, if_pos (by dsimp only; omega)]
      dsimp only
      rw [h_before, h_pool])
    rwa [h_next] at h_end
  · -- the estimate is larger than the buffer: every row is written behind a flush
    have h_zero : k = 0 := by
      have h_short := one_le_shortestLine (schema_ne_nil h_pos)
      have h_count := Nat.le_mul_of_pos_right k h_short
      have h_lo' : k * shortestLine env ≤ s := h_lo
      omega
    subst h_zero
    have h_row := givenRun_row h_inspect (i := 0) (Nat.zero_le _) (.inl rfl)
    have h_flush := h_row.work ((if_pos (by dsimp only; omega)).trans
      (if_pos (by dsimp only; omega))) fun m _ =>
        ⟨rfl, m.write_pool_of_ne (show (1 : ℤ) ≠ 2 by decide) _⟩
    have h_assign := (h_flush.push rfl).pop rfl (by decide) (by simp [Ser.held])
    have h_emit := h_assign.work rfl fun m _ =>
      ⟨rfl, m.write_pool_of_ne (show (1 : ℤ) ≠ 2 by decide) _⟩
    obtain ⟨p, h_pool, h_inside⟩ := h.inside h_emit
    have h_end := h_inside 0 _ rfl
    dsimp only at h_end
    rw [h_pool, h_next] at h_end
    omega

/-- If nothing is written past the end of a Parquet file, then the longest line fits. -/
theorem NeverPast.reach_le_of_parquet (h : NeverPast env) (h_skip : env.skipSerializer = false)
    (h_pos : 1 ≤ env.tuplesPerBuffer) :
    reach (shortestParquetLine env) (longestLine env) (env.bufferSizeInBytes - 1000)
      env.bufferSizeInBytes ≤ env.payloadSize := by
  let P := parquetPrinter (rfl : (givenExt []).formatDouble = printDouble)
  obtain ⟨k, s, -, h_lo, h_hi, h_room, h_reach⟩ := exists_reach (P.minLine_le_maxLine env.schema)
    (env.bufferSizeInBytes - 1000) env.bufferSizeInBytes
  rw [show reach (shortestParquetLine env) (longestLine env) _ _ = s + longestLine env from h_reach]
  obtain ⟨front, h_length, h_front, h_sum⟩ := P.exists_lines h_lo h_hi
  obtain ⟨last, h_last, h_line⟩ := P.exists_lineWith (P.minLine_le_maxLine env.schema) le_rfl
  have h_rows : ∀ row ∈ front ++ [last], List.Forall₂ P.good env.schema row :=
    List.forall_mem_append.mpr ⟨h_front, List.forall_mem_singleton.mpr h_last⟩
  have h_inspect := givenRun_inspect h_skip (input_givenInput_of_parquet h_rows)
  have h_lines : ∀ row, serializeParquetRow (givenExt []) env.schema row
      = P.lineWith env.schema row := serializeParquetRow_eq rfl env.schema
  have h_before : (((front ++ [last]).take k).flatMap
      (serializeParquetRow (givenExt []) env.schema)).length = s := by
    rw [← h_length, List.take_left, List.length_flatMap, ← h_sum]
    exact congrArg List.sum (List.map_congr_left fun row _ => congrArg List.length (h_lines row))
  have h_drop : (front ++ [last]).drop k = [last] := by rw [← h_length, List.drop_left]
  -- a buffer with a tuple has 1024 bytes at least
  have h_size : 1000 ≤ env.bufferSizeInBytes := by
    have h_kib : env.bufferSize ≠ 0 := fun h_zero => by
      rw [RuntimeEnv.tuplesPerBuffer, Xdbc.tuplesPerBuffer, h_zero, Nat.zero_mul,
        Nat.zero_div] at h_pos
      omega
    rw [RuntimeEnv.bufferSizeInBytes]
    omega
  have h_row := givenRun_pqRow h_inspect (i := k)
    (by rw [List.length_append, h_length]; exact Nat.le_add_right _ _)
    (.inr (by rw [h_before]; omega))
  rw [h_drop, h_before] at h_row
  obtain ⟨p, -, h_inside⟩ := h.inside h_row
  have h_end := h_inside s _ rfl
  have h_long : (P.lineWith env.schema last).length = longestLine env := h_line
  rw [serializeParquetRow_givenExt, h_lines, h_long] at h_end
  exact h_end

/-- With `skip_serializer` no text is written. -/
theorem neverPast_of_skip (h_skip : env.skipSerializer = true) : NeverPast env := by
  intro ext _ m₀ m es l h _
  have h_leads : ∀ l : Ser, (env.skipSerializer → l.Forwards) →
      (serialize (σ := Files) env ext l).Leads fun l => env.skipSerializer → l.Forwards :=
    serialize_leads env ext
  have h_start : env.skipSerializer → Ser.popIn.Forwards := fun _ => trivial
  have h_forwards : l.Forwards := h.leads h_leads h_start h_skip
  intro off text h_next
  cases l with
  | popIn => cases h_next
  | skipPush b => cases h_next
  | done => cases h_next
  | _ => exact h_forwards.elim

/-- **Nothing is written past the end of a payload if and only if the longest line ends inside it,
wherever it may begin** in a table or a Parquet file, or no text is written at all. -/
theorem neverPast_iff (env : RuntimeEnv) (h_pos : 1 ≤ env.tuplesPerBuffer) :
    NeverPast env ↔ env.skipSerializer = true ∨ Fits env := by
  constructor
  · intro h
    rw [or_iff_not_imp_left, Bool.not_eq_true]
    exact fun h_skip => ⟨h.reach_le_of_table h_skip h_pos, h.reach_le_of_parquet h_skip h_pos⟩
  · rintro (h_skip | h_fits)
    · exact neverPast_of_skip h_skip
    · intro ext h_print m₀ m es l h h_in
      exact (serialize_inBounds h_print h h_in).inside h_print h_fits h_pos

/-- Lines with one integer fit a buffer of 1 KiB. -/
theorem neverPast_smallEnv : NeverPast smallEnv :=
  (neverPast_iff smallEnv (by decide)).mpr (.inr ⟨by decide, by decide⟩)

/-- One tuple of 1000 characters is all that a buffer of 1 KiB has room for. -/
def oneTupleEnv : RuntimeEnv := { smallEnv with schema := [⟨.string, 1000⟩] }

/-- The newline is written past the end of the payload. -/
theorem writes_past_oneTuple : 1 ≤ oneTupleEnv.tuplesPerBuffer ∧ ¬ NeverPast oneTupleEnv :=
  ⟨by decide, fun h => absurd (h.reach_le_of_table rfl (by decide)) (by decide)⟩

end Runs

end Xdbc.Client
