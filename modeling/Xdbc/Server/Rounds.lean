import Xdbc.Server.Rows
import Xdbc.Server.System

/-!
# A round of the loop over the rows

The loop of `deserializeCSV` and `deserializePG` over the rows of an input buffer, one round at a
time. While the input buffer is not read to the end, what is left of it begins with a row
(`DeserVars.Reads.meets`). A round reads exactly this row (`DeserVars.Meets.advance`) and writes its
cells behind the rows already in the output buffer (`DeserVars.step_table`).
-/

namespace Xdbc.Server

open Bytes Pipeline

/-! ### Whole rows -/

section Whole

variable (X : TextSource) (env : RuntimeEnv)

/-- A text of whole, well-formed rows. -/
def Whole (text : List UInt8) : Prop :=
  ∃ rows : List (List (List UInt8)), (∀ fields ∈ rows, WellFormedRow X env.schema fields) ∧
    text = rows.flatMap (rowText X)

/-- The buffer contains whole, well-formed rows, as many bytes as its header says. -/
structure WholeRows (b : Buffer) : Prop where
  text : Whole X env b.data
  size : b.data.length = b.header.totalSize

variable {X env}

theorem rowText_ne_nil (fields : List (List UInt8)) : rowText X fields ≠ [] := by
  simp [rowText]

variable {ext : External} (R : RowKind X env ext)

/-- A text of whole rows. -/
def RowKind.Text (text : List UInt8) : Prop :=
  ∃ rows : List (List (List UInt8)), (∀ fields ∈ rows, R.Good fields) ∧
    text = rows.flatMap (rowText X)

/-- The buffer contains whole rows, as many bytes as its header says. -/
structure RowKind.Rows (b : Buffer) : Prop where
  text : R.Text b.data
  size : b.data.length = b.header.totalSize

theorem WholeRows.rows {b : Buffer} (h : WholeRows X env b) : (wellFormedKind X env ext).Rows b :=
  ⟨h.text, h.size⟩

variable {R}

/-- A text of whole rows that has not been read to the end begins with a row. -/
theorem RowKind.Text.exists_cons {text : List UInt8} (h : R.Text text) (h_ne : text ≠ []) :
    ∃ fields rest, R.Good fields ∧ R.Text rest ∧ text = rowText X fields ++ rest := by
  obtain ⟨rows, h_rows, rfl⟩ := h
  cases rows with
  | nil => exact absurd rfl h_ne
  | cons fields rows =>
    obtain ⟨h_first, h_rows⟩ := List.forall_mem_cons.mp h_rows
    exact ⟨fields, _, h_first, ⟨rows, h_rows, rfl⟩, by simp⟩

/-- The fields found in a text of whole rows are rows. -/
theorem RowKind.Text.good {text : List UInt8} (h : R.Text text) :
    ∀ fields ∈ fieldRows X text, R.Good fields := by
  obtain ⟨rows, h_rows, rfl⟩ := h
  rw [fieldRows_flatMap fun fields hf => R.plain (h_rows fields hf)]
  exact h_rows

end Whole

/-! ### What is left to read -/

section Rounds

variable {X : TextSource} {env : RuntimeEnv} {ext : External}

/-- What is left to read of the input buffer. -/
def DeserVars.unread (d : DeserVars) (p : ℤ → Buffer) : List UInt8 :=
  (p d.inBid).data.drop d.readOffset

variable (env) in
/-- The output buffer is empty, or it has room for another row. -/
def DeserVars.Room (d : DeserVars) : Prop :=
  d.bufferTupleId = 0 ∨
    d.bufferTupleId < env.tuplesPerBuffer ∧ ∀ a ∈ env.schema, a.width ≤ a.size

variable (R : RowKind X env ext)

/-- The input buffer is read up to the beginning of a row. -/
structure DeserVars.Reads (d : DeserVars) (p : ℤ → Buffer) : Prop where
  whole : R.Text (d.unread p)
  size : (p d.inBid).data.length = (p d.inBid).header.totalSize
  offset : d.readOffset ≤ (p d.inBid).header.totalSize

/-- What is left to read is the line of a row and a rest. -/
structure DeserVars.Meets (d : DeserVars) (p : ℤ → Buffer) (fields : List (List UInt8))
    (rest : List UInt8) : Prop where
  row : R.Good fields
  whole : R.Text rest
  begins : d.unread p = rowText X fields ++ rest
  size : (p d.inBid).data.length = (p d.inBid).header.totalSize
  offset : d.readOffset ≤ (p d.inBid).header.totalSize

variable {R} {d : DeserVars} {p : ℤ → Buffer} {fields : List (List UInt8)} {rest : List UInt8}

theorem DeserVars.unread_congr {p' : ℤ → Buffer} (h : p' d.inBid = p d.inBid) :
    d.unread p' = d.unread p := by
  rw [unread, unread, h]

/-- Reading is about the input buffer. -/
theorem DeserVars.Reads.congr {p' : ℤ → Buffer} (h_eq : p' d.inBid = p d.inBid)
    (h : d.Reads R p) : d.Reads R p' := by
  obtain ⟨h_whole, h_size, h_offset⟩ := h
  refine ⟨?_, ?_, ?_⟩
  · rw [unread_congr h_eq]; exact h_whole
  · rw [h_eq]; exact h_size
  · rw [h_eq]; exact h_offset

/-- A buffer of whole rows can be read from its beginning. -/
theorem DeserVars.Reads.of_rows (h_zero : d.readOffset = 0) (h : R.Rows (p d.inBid)) :
    d.Reads R p := by
  refine ⟨?_, h.size, by rw [h_zero]; exact Nat.zero_le _⟩
  rw [DeserVars.unread, h_zero, List.drop_zero]
  exact h.text

/-- As long as the input buffer is not read to the end, there is another row. -/
theorem DeserVars.Reads.meets (h : d.Reads R p)
    (h_lt : d.readOffset < (p d.inBid).header.totalSize) :
    ∃ fields rest, d.Meets R p fields rest := by
  have h_unread : d.unread p ≠ [] := by
    intro h_nil
    have h_length := congrArg List.length h_nil
    rw [unread, List.length_drop, h.size, List.length_nil] at h_length
    omega
  obtain ⟨fields, rest, h_fields, h_rest, h_eq⟩ := h.whole.exists_cons h_unread
  exact ⟨fields, rest, h_fields, h_rest, h_eq, h.size, h.offset⟩

/-- An input buffer that is read to the end holds no more rows. -/
theorem DeserVars.Reads.read (h : d.Reads R p)
    (h_not : ¬ d.readOffset < (p d.inBid).header.totalSize) :
    d.unread p = [] ∧ d.readOffset = (p d.inBid).header.totalSize := by
  have h_offset := h.offset
  exact ⟨List.drop_eq_nil_of_le (by rw [h.size]; omega), by omega⟩

/-- The memory from the reading position on: the row, the rest, and what the header does not
announce. -/
theorem DeserVars.Meets.src (h : d.Meets R p fields rest) :
    (p d.inBid).payload.drop d.readOffset = rowText X fields
      ++ (rest ++ (p d.inBid).payload.drop (p d.inBid).header.totalSize) := by
  rw [← List.append_assoc, ← h.begins, DeserVars.unread, Buffer.data,
    ← List.drop_append_of_le_length (by rw [← Buffer.data, h.size]; exact h.offset),
    List.take_append_drop]

theorem DeserVars.Meets.length (h : d.Meets R p fields rest) :
    d.readOffset + (rowText X fields).length + rest.length = (p d.inBid).header.totalSize := by
  have h_length := congrArg List.length h.begins
  have h_offset := h.offset
  rw [DeserVars.unread, List.length_drop, h.size, List.length_append] at h_length
  omega

theorem DeserVars.Meets.lt (h : d.Meets R p fields rest) :
    d.readOffset < (p d.inBid).header.totalSize := by
  have h_pos := List.length_pos_of_ne_nil (rowText_ne_nil (X := X) fields)
  have h_length := h.length
  omega

/-- **A round reads one row.** -/
theorem DeserVars.Meets.advance (h : d.Meets R p fields rest) (d' : DeserVars)
    {p' : ℤ → Buffer} (h_in : d'.inBid = d.inBid)
    (h_offset : d'.readOffset = d.readOffset + (rowText X fields).length)
    (h_pool : p' d.inBid = p d.inBid) : d'.Reads R p' ∧ d'.unread p' = rest := by
  have h_rest : d'.unread p' = rest := by
    rw [DeserVars.unread, h_in, h_pool, h_offset, ← List.drop_drop, ← DeserVars.unread, h.begins,
      List.drop_left]
  have h_length := h.length
  refine ⟨⟨by rw [h_rest]; exact h.whole, ?_, ?_⟩, h_rest⟩
  · rw [h_in, h_pool]; exact h.size
  · rw [h_in, h_pool, h_offset]; omega

/-! ### What a round writes -/

section Step

variable {σ : Type} {m : Memory Buffer σ}

theorem DeserVars.step_read (h : ¬ d.readOffset < (m.pool d.inBid).header.totalSize) :
    d.step X env ext m = (m, .freeIn d) := if_neg h

/-- A buffer from which a row is read has room for one. -/
theorem DeserVars.Meets.tuplesPerBuffer_pos (h : d.Meets R p fields rest)
    (h_full : Full env (p d.inBid)) : 0 < env.tuplesPerBuffer := by
  by_contra h_zero
  have h_none : env.payloadSize = 0 := by
    rw [RuntimeEnv.payloadSize, payloadSize, show tuplesPerBuffer _ _ = 0 by
      exact Nat.eq_zero_of_not_pos h_zero, Nat.zero_mul]
  have h_data : (p d.inBid).data.length ≤ (p d.inBid).payload.length := List.length_take_le' _ _
  have h_lt := h.lt
  rw [h.size, h_full, h_none] at h_data
  omega

/-- **A round writes the cells of one row** behind the rows of the output buffer. -/
theorem DeserVars.step_table (h_format : env.iformat = 1 ∨ env.iformat = 2)
    (h_flushes : X.flushes env.iformat = true) (h : d.Meets R m.pool fields rest)
    (h_full : Full env (m.pool d.outBid)) (hk : d.bufferTupleId < env.tuplesPerBuffer) :
    ∃ payload, payload.length = env.payloadSize ∧
      cellRows X env (d.bufferTupleId + 1) payload
        = cellRows X env d.bufferTupleId (m.pool d.outBid).payload ++ [R.row fields] ∧
      d.step X env ext m =
        if d.bufferTupleId + 1 = env.tuplesPerBuffer then
          (m.write d.outBid ⟨fullHeader env env.tuplesPerBuffer, payload⟩,
            .flushPush { d with
              readOffset := d.readOffset + (rowText X fields).length, bufferTupleId := 0 })
        else
          (m.write d.outBid { m.pool d.outBid with payload := payload },
            .row { d with
              readOffset := d.readOffset + (rowText X fields).length
              bufferTupleId := d.bufferTupleId + 1 }) := by
  have h_row := deserializeRow_rowText ext h_format d.bufferTupleId (R.plain h.row) 0
    (rest ++ (m.pool d.inBid).payload.drop (m.pool d.inBid).header.totalSize)
    (m.pool d.outBid).payload
  have h_not_arrow : ¬ (X.arrow = true ∧ env.iformat = 3) := by omega
  -- the row is written in place, and the header once the table is full
  refine ⟨_, (Layout.length_writeRow _ _ _).trans h_full, R.cellRows_writeRow h.row hk h_full, ?_⟩
  simp only [step, if_pos h.lt, h.src, h_row, if_neg h_not_arrow, h_flushes, and_true]
  split
  · next h_flush => rw [h_flush]
  · rfl

end Step

end Rounds

end Xdbc.Server
