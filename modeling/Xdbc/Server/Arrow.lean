import Xdbc.Bytes.Codec
import Xdbc.Server.Batches

/-!
# Record batches

In intermediate format 3 `deserializeCSV` appends the rows to the builders of a record batch. The
batch is written when it has `tuples_per_buffer - 1000` rows, compared as unsigned numbers: up to
`tuples_per_buffer = 1000` no batch is ever full. What is in the builders at the end is one more
batch, unless there are exactly `tuples_per_buffer` rows in them.

`Deser.Collects` is the invariant of a solo run, with the rows as the scanner finds them
(`rowsFrom`). It leaves two ways to end: everything is in a batch, or the last `tuples_per_buffer`
rows are lost. Hence the exact condition of `arrow_complete_iff`.
-/

namespace Xdbc.Server

open Bytes Pipeline

/-! ### The rows the scanner finds -/

section Scan

variable (X : TextSource)

/-- The number of bytes of the next row, `none` where a delimiter is missing. -/
def rowLength : List SchemaAttribute → List UInt8 → Option ℕ
  | [], _ => some 0
  | _ :: schema, src =>
    match strchr (if schema.isEmpty then newline else X.delimiter) src with
    | none => none
    | some len => (rowLength schema (src.drop (len + 1))).map (len + 1 + ·)

/-- The rows that begin in the next `size` bytes. -/
def rowsFrom (schema : List SchemaAttribute) : (fuel size : ℕ) → List UInt8 → List (List UInt8)
  | 0, _, _ => []
  | fuel + 1, size, src =>
    if 0 < size then
      match rowLength X schema src with
      | none => []
      | some len => src.take len :: rowsFrom schema fuel (size - len) (src.drop len)
    else []

/-- The rows of a buffer, each as its text. -/
def rowsScanned (schema : List SchemaAttribute) (c : Buffer) : List (List UInt8) :=
  rowsFrom X schema c.header.totalSize c.header.totalSize c.payload

/-- The rows still to scan. -/
def DeserVars.left (schema : List SchemaAttribute) (d : DeserVars) (p : ℤ → Buffer) :
    List (List UInt8) :=
  rowsFrom X schema ((p d.inBid).header.totalSize - d.readOffset)
    ((p d.inBid).header.totalSize - d.readOffset) ((p d.inBid).payload.drop d.readOffset)

variable {X} {schema : List SchemaAttribute} {src : List UInt8}

theorem rowLength_pos (h_schema : schema ≠ []) {len : ℕ} (h : rowLength X schema src = some len) :
    0 < len := by
  cases schema with
  | nil => exact absurd rfl h_schema
  | cons a schema =>
    simp only [rowLength] at h
    split at h
    · cases h
    · obtain ⟨rest, -, rfl⟩ := Option.map_eq_some_iff.mp h
      omega

@[simp] theorem rowsFrom_zero (fuel : ℕ) : rowsFrom X schema fuel 0 src = [] := by
  cases fuel <;> simp [rowsFrom]

/-- More fuel than bytes makes no difference. -/
theorem rowsFrom_eq (h_schema : schema ≠ []) {fuel fuel' size : ℕ} (h : size ≤ fuel)
    (h' : size ≤ fuel') : rowsFrom X schema fuel size src = rowsFrom X schema fuel' size src := by
  induction fuel generalizing fuel' size src with
  | zero => rw [Nat.le_zero.mp h, rowsFrom_zero, rowsFrom_zero]
  | succ fuel ih =>
    cases fuel' with
    | zero => rw [Nat.le_zero.mp h', rowsFrom_zero, rowsFrom_zero]
    | succ fuel' =>
      simp only [rowsFrom]
      split
      · split
        · rfl
        · next len h_len =>
          have h_pos := rowLength_pos h_schema h_len
          exact congrArg _ (ih (by omega) (by omega))
      · rfl

/-- The first row that is found. -/
theorem rowsFrom_cons (h_schema : schema ≠ []) {size len : ℕ} (h_size : 0 < size)
    (h_len : rowLength X schema src = some len) :
    rowsFrom X schema size size src
      = src.take len :: rowsFrom X schema (size - len) (size - len) (src.drop len) := by
  obtain ⟨fuel, rfl⟩ := Nat.exists_eq_add_one.mpr h_size
  have h_pos := rowLength_pos h_schema h_len
  rw [rowsFrom, if_pos h_size, h_len]
  dsimp only
  rw [rowsFrom_eq h_schema (le_refl (fuel + 1 - len)) (show fuel + 1 - len ≤ fuel by omega)]

/-- In format 3 nothing is written to the output buffer while a row is read. -/
theorem deserializeRow_arrow {env : RuntimeEnv} (h_format : env.iformat = 3) (ext : External)
    (k off : ℕ) (dst : List UInt8) :
    deserializeRow X env ext k schema src off dst
      = (rowLength X schema src).map fun len => (len, dst) := by
  have h_not : ¬ (env.iformat = 1 ∨ env.iformat = 2) := by omega
  induction schema generalizing src off with
  | nil => rfl
  | cons a schema ih =>
    simp only [deserializeRow, rowLength, if_neg h_not]
    cases strchr (if schema.isEmpty then newline else X.delimiter) src with
    | none => rfl
    | some len =>
      dsimp only
      rw [ih, Option.map_map, Option.map_map]
      rfl

end Scan

/-! ### A round of the loop -/

section Round

variable {env : RuntimeEnv} {ext : External} {σ : Type} {d : DeserVars} {m : Memory Buffer σ}

/-- **A round appends one row to the builders**, and writes the record batch if it is full. -/
theorem DeserVars.step_arrow (h_format : env.iformat = 3)
    (h_lt : d.readOffset < (m.pool d.inBid).header.totalSize) {len : ℕ}
    (h_len : rowLength csvText env.schema ((m.pool d.inBid).payload.drop d.readOffset) = some len) :
    d.step csvText env ext m =
      let row := ((m.pool d.inBid).payload.drop d.readOffset).take len
      if d.bufferTupleId + 1 = toSizeT (env.tuplesPerBuffer - 1000) then
        match ext.arrowBatch (d.builders ++ [row]) with
        | none => (m, .thrown (some d.inBid) d.outBid)
        | some batch =>
          (m.write d.outBid ⟨batchHeader env (d.bufferTupleId + 1) batch.length,
            put (m.pool d.outBid).payload 0 batch⟩,
            .flushPush { d with
              readOffset := d.readOffset + len, bufferTupleId := 0, builders := [] })
      else (m, .row { d with
        readOffset := d.readOffset + len
        bufferTupleId := d.bufferTupleId + 1
        builders := d.builders ++ [row] }) := by
  have h_flushes : csvText.flushes env.iformat = false := by simp [csvText, h_format]
  have h_arrow : csvText.arrow = true ∧ env.iformat = 3 := ⟨rfl, h_format⟩
  simp only [step, if_pos h_lt, deserializeRow_arrow h_format, h_len, Option.map_some, h_flushes,
    Bool.false_eq_true, and_false, if_false]
  exact if_pos h_arrow

/-- Without a delimiter the code follows a null pointer. -/
theorem DeserVars.step_arrow_none (h_format : env.iformat = 3)
    (h_lt : d.readOffset < (m.pool d.inBid).header.totalSize)
    (h_len : rowLength csvText env.schema ((m.pool d.inBid).payload.drop d.readOffset) = none) :
    d.step csvText env ext m = (m, .thrown (some d.inBid) d.outBid) := by
  simp only [step, if_pos h_lt, deserializeRow_arrow h_format, h_len, Option.map_none]

theorem DeserVars.left_eq_nil {p : ℤ → Buffer}
    (h_not : ¬ d.readOffset < (p d.inBid).header.totalSize) : d.left csvText env.schema p = [] := by
  rw [left, Nat.sub_eq_zero_of_le (Nat.le_of_not_lt h_not), rowsFrom_zero]

/-- **The row of a round** is the first of those still to scan. -/
theorem DeserVars.left_eq_cons (h_schema : env.schema ≠ []) {p p' : ℤ → Buffer}
    (h_lt : d.readOffset < (p d.inBid).header.totalSize) {len : ℕ}
    (h_len : rowLength csvText env.schema ((p d.inBid).payload.drop d.readOffset) = some len)
    (d' : DeserVars) (h_in : d'.inBid = d.inBid) (h_offset : d'.readOffset = d.readOffset + len)
    (h_pool : p' d.inBid = p d.inBid) :
    d.left csvText env.schema p
      = ((p d.inBid).payload.drop d.readOffset).take len :: d'.left csvText env.schema p' := by
  rw [left, rowsFrom_cons h_schema (Nat.sub_pos_of_lt h_lt) h_len, left, h_in, h_pool, h_offset,
    List.drop_drop, Nat.sub_add_eq]

end Round

/-! ### The batches -/

section Batches

variable (env : RuntimeEnv) (readBatch : List UInt8 → Option (List (List UInt8)))

/-- The buffer holds the rows as a record batch. -/
structure HoldsBatch (rows : List (List UInt8)) (b : Buffer) : Prop where
  tuples : b.header.totalTuples = rows.length
  read : readBatch b.data = some rows

/-- Rows into record batches. -/
def arrowBatches : Regrouping Buffer (List UInt8) where
  source := 1
  sink := 2
  itemsOf := rowsScanned csvText env.schema
  Full rows := 1 ≤ rows.length ∧ rows.length = toSizeT (env.tuplesPerBuffer - 1000)
  Holds := HoldsBatch readBatch

/-- A batch of these rows is not full yet. -/
def Open (rows : List (List UInt8)) : Prop :=
  1000 < env.tuplesPerBuffer → rows.length + 1000 < env.tuplesPerBuffer

/-- The builders hold the rows. -/
structure DeserVars.Builds (d : DeserVars) (rows : List (List UInt8)) : Prop where
  builders : d.builders = rows
  tuples : d.bufferTupleId = rows.length
  opened : Open env rows

/-- What is in the builders at the end makes a batch. -/
def LastBatch (rows : List (List UInt8)) : Prop :=
  1 ≤ rows.length ∧ rows.length ≠ env.tuplesPerBuffer ∧ Open env rows

/-- What is in the builders at the end is forgotten. -/
def Forgotten (rows : List (List UInt8)) : Prop :=
  rows.length = env.tuplesPerBuffer ∧ Open env rows

/-- **The state of the collection at each program point.** -/
def Deser.Collects (es : List (Event Buffer)) (p : ℤ → Buffer) : Deser → Prop
  | .start => Event.inputs 1 es = [] ∧ Event.outputs 2 es = []
  | .popIn o => Full env (p o) ∧ Event.inputs 1 es = [] ∧ Event.outputs 2 es = []
  | .row d => d.inBid ≠ d.outBid ∧ Full env (p d.outBid) ∧
      (arrowBatches env readBatch).Splits es (d.Builds env) (d.left csvText env.schema p)
  | .flushPush d => d.bufferTupleId = 0 ∧ d.builders = [] ∧
      (arrowBatches env readBatch).Splits es (fun rows =>
        (1 ≤ rows.length ∧ rows.length = toSizeT (env.tuplesPerBuffer - 1000)) ∧
          HoldsBatch readBatch rows (p d.outBid)) (d.left csvText env.schema p)
  | .flushPop d => d.bufferTupleId = 0 ∧ d.builders = [] ∧
      (arrowBatches env readBatch).Splits es (fun rows => rows = []) (d.left csvText env.schema p)
  | .freeIn d | .nextIn d | .rest d => Full env (p d.outBid) ∧
      (arrowBatches env readBatch).Splits es (d.Builds env) []
  | .restPush d => (arrowBatches env readBatch).Splits es (fun rows => LastBatch env rows ∧
      HoldsBatch readBatch rows (p d.outBid)) []
  | .done _ => (∃ batches, (arrowBatches env readBatch).Chunks es (LastBatch env) batches) ∨
      (arrowBatches env readBatch).Splits es (Forgotten env) []
  | .skipPush _ => False
  | .thrown _ _ => True

variable {env readBatch} {es : List (Event Buffer)} {p p' : ℤ → Buffer}

/-- What is known of a thread is about the buffers it holds. -/
theorem Deser.Collects.congr {l : Deser} (h_own : ∀ b ∈ l.held, p' b = p b)
    (h : l.Collects env readBatch es p) : l.Collects env readBatch es p' := by
  cases l with
  | popIn o => rw [Deser.Collects, h_own o (by simp [held])]; exact h
  | row d =>
    rw [Deser.Collects, h_own d.outBid (by simp [held]), DeserVars.left, h_own d.inBid
      (by simp [held])]
    exact h
  | flushPush d =>
    rw [Deser.Collects, h_own d.outBid (by simp [held]), DeserVars.left, h_own d.inBid
      (by simp [held])]
    exact h
  | flushPop d =>
    rw [Deser.Collects, DeserVars.left, h_own d.inBid (by simp [held])]
    exact h
  | freeIn d => rw [Deser.Collects, h_own d.outBid (by simp [held])]; exact h
  | nextIn d => rw [Deser.Collects, h_own d.outBid (by simp [held])]; exact h
  | rest d => rw [Deser.Collects, h_own d.outBid (by simp [held])]; exact h
  | restPush d => rw [Deser.Collects, h_own d.outBid (by simp [held])]; exact h
  | start => exact h
  | done o => exact h
  | skipPush b => exact h
  | thrown i o => exact h

/-- A batch that is written is held by the output buffer. -/
theorem holdsBatch_written {ext : External}
    (h_fits : ∀ rows batch, ext.arrowBatch rows = some batch → batch.length ≤ env.payloadSize)
    (h_read : ∀ rows batch, ext.arrowBatch rows = some batch → readBatch batch = some rows)
    {rows : List (List UInt8)} {batch payload : List UInt8} (h : ext.arrowBatch rows = some batch)
    (h_full : payload.length = env.payloadSize) {k : ℕ} (hk : k = rows.length) :
    HoldsBatch readBatch rows ⟨batchHeader env k batch.length, put payload 0 batch⟩ where
  tuples := hk
  read := by
    have h_room : 0 + batch.length ≤ payload.length := by
      rw [h_full, Nat.zero_add]; exact h_fits _ _ h
    have h_data : (put payload 0 batch).take batch.length = batch := slice_put_same h_room
    rw [Buffer.data, batchHeader, h_data]
    exact h_read _ _ h

section Run

variable {ext : External}
  (h_fits : ∀ rows batch, ext.arrowBatch rows = some batch → batch.length ≤ env.payloadSize)
  (h_read : ∀ rows batch, ext.arrowBatch rows = some batch → readBatch batch = some rows)

include h_fits h_read in
/-- **A round of the loop** over the rows. -/
theorem DeserVars.step_collects (h_format : env.iformat = 3) (h_schema : env.schema ≠ [])
    {σ : Type} {d : DeserVars} {m : Memory Buffer σ}
    (h : (Deser.row d).Collects env readBatch es m.pool) :
    (d.step csvText env ext m).2.Collects env readBatch es (d.step csvText env ext m).1.pool := by
  obtain ⟨h_ne, h_full, h_splits⟩ := h
  by_cases h_lt : d.readOffset < (m.pool d.inBid).header.totalSize
  · cases h_len : rowLength csvText env.schema ((m.pool d.inBid).payload.drop d.readOffset) with
    | none =>
      rw [d.step_arrow_none h_format h_lt h_len]
      exact trivial
    | some len =>
      have h_in := m.write_pool_of_ne h_ne
      rw [d.step_arrow h_format h_lt h_len]
      dsimp only
      split
      · next h_flush =>
        split
        · exact trivial
        · next batch h_batch =>
          -- the row makes the batch full
          rw [d.left_eq_cons h_schema h_lt h_len { d with
            readOffset := d.readOffset + len, bufferTupleId := 0, builders := [] } rfl rfl
            (h_in ⟨batchHeader env (d.bufferTupleId + 1) batch.length,
              put (m.pool d.outBid).payload 0 batch⟩)] at h_splits
          refine ⟨rfl, rfl, h_splits.next fun rows h_builds => ?_⟩
          obtain ⟨rfl, h_tuples, -⟩ := h_builds
          have h_count : d.bufferTupleId + 1 = (d.builders ++
              [((m.pool d.inBid).payload.drop d.readOffset).take len]).length := by
            rw [List.length_append, List.length_singleton, h_tuples]
          rw [Memory.write_pool_self]
          exact ⟨⟨by omega, by omega⟩, holdsBatch_written h_fits h_read h_batch h_full h_count⟩
      · next h_more =>
        -- the row is appended to the builders
        rw [d.left_eq_cons h_schema h_lt h_len { d with
          readOffset := d.readOffset + len
          bufferTupleId := d.bufferTupleId + 1
          builders := d.builders ++ [((m.pool d.inBid).payload.drop d.readOffset).take len] }
          rfl rfl rfl] at h_splits
        refine ⟨h_ne, h_full, h_splits.next fun rows h_builds => ?_⟩
        obtain ⟨rfl, h_tuples, h_open⟩ := h_builds
        refine ⟨rfl, ?_, fun h_large => ?_⟩
        · rw [List.length_append, List.length_singleton, h_tuples]
        · have h_before := h_open h_large
          rw [show ((env.tuplesPerBuffer : ℤ) - 1000) = ((env.tuplesPerBuffer - 1000 : ℕ) : ℤ) by
            omega, toSizeT_natCast] at h_more
          rw [List.length_append, List.length_singleton]
          omega
  · -- the input buffer has been scanned to its end
    rw [d.left_eq_nil h_lt] at h_splits
    rw [d.step_read h_lt]
    exact ⟨h_full, h_splits⟩

include h_fits h_read in
/-- **Step lemma.** Every operation of the thread keeps to the collection. -/
theorem deserializeCSV_collects (h_format : env.iformat = 3) (h_schema : env.schema ≠ [])
    (h_skip : env.skipDeserializer = false) {σ : Type} {m₀ m : Memory Buffer σ} {l : Deser}
    (h : Solo 4 Deser.held (deserializeCSV env ext) Deser.TakesMarker .start m₀ es l m)
    (h_full : Takes 0 (Full env) es) : l.Collects env readBatch es m.pool := by
  have h_flushes : csvText.flushes env.iformat = false := by simp [csvText, h_format]
  have h_skips : ¬ (csvText.skips = true ∧ env.skipDeserializer = true) := by simp [h_skip]
  have h_empty : 1000 < env.tuplesPerBuffer → 0 + 1000 < env.tuplesPerBuffer := fun h => by omega
  induction h with
  | start => exact ⟨rfl, rfl⟩
  | others _ h_own ih => exact (ih h_full).congr h_own
  | @pop es l m q k v _ hop h_free h_new h_good ih =>
    have h_inv := ih h_full.of_append
    cases l with
    | start =>
      simp only [deserializeCSV, deserializeText, if_neg h_skips] at hop
      cases hop
      obtain ⟨h_in, h_out⟩ := h_inv
      refine ⟨h_full.popped (h_free rfl), ?_, ?_⟩
      · rw [Event.inputs_popped_of_ne (by decide)]; exact h_in
      · rw [Event.outputs_popped]; exact h_out
    | popIn o =>
      simp only [deserializeCSV, deserializeText] at hop
      cases hop
      -- the first input buffer, and nothing in the builders
      obtain ⟨h_out_full, h_in, h_out⟩ := h_inv
      have hv : v ≠ marker := by rintro rfl; exact h_good rfl
      refine ⟨fun h_eq => h_new (by decide) hv (Multiset.mem_singleton.mpr h_eq), h_out_full,
        .first (c := m.pool v) ?_ ?_ ⟨rfl, rfl, h_empty⟩⟩
      · rw [arrowBatches, Event.inputs_popped hv, h_in]; rfl
      · rw [arrowBatches, Event.outputs_popped]; exact h_out
    | flushPop d =>
      simp only [deserializeCSV, deserializeText] at hop
      cases hop
      -- a batch has been pushed, so the builders are empty
      obtain ⟨h_zero, h_nil, h_splits⟩ := h_inv
      exact ⟨fun h_eq => h_new (by decide) (h_free rfl) (Multiset.mem_singleton.mpr h_eq.symm),
        h_full.popped (h_free rfl), (h_splits.popped_of_ne (Nat.zero_ne_one)).imp
          fun rows h_rows => h_rows ▸ ⟨h_nil, h_zero, h_empty⟩⟩
    | nextIn d =>
      simp only [deserializeCSV, deserializeText] at hop
      cases hop
      obtain ⟨h_out_full, h_splits⟩ := h_inv
      by_cases hv : v = marker
      · subst hv
        exact ⟨h_out_full, h_splits.marker⟩
      · dsimp only
        rw [if_neg hv]
        exact ⟨fun h_eq => h_new (by decide) hv (Multiset.mem_singleton.mpr h_eq), h_out_full,
          (h_splits.input hv).imp fun rows h => ⟨h.builders, h.tuples, h.opened⟩⟩
    | skipPush b => exact h_inv.elim
    | rest d =>
      simp only [deserializeCSV, deserializeText] at hop
      repeat' split at hop
      all_goals cases hop
    | _ => simp [deserializeCSV, deserializeText] at hop
  | @push es l m q v l' _ hop h_good ih =>
    have h_inv := ih h_full.of_append
    cases l with
    | flushPush d =>
      simp only [deserializeCSV, deserializeText] at hop
      cases hop
      exact ⟨h_inv.1, h_inv.2.1, h_inv.2.2.pushed⟩
    | freeIn d =>
      simp only [deserializeCSV, deserializeText] at hop
      cases hop
      exact ⟨h_inv.1, h_inv.2.pushed_of_ne (Nat.zero_ne_add_one 1)⟩
    | restPush d =>
      simp only [deserializeCSV, deserializeText] at hop
      cases hop
      exact .inl h_inv.chunked_pushed
    | start => simp only [deserializeCSV, deserializeText, if_neg h_skips] at hop; cases hop
    | skipPush b => exact h_inv.elim
    | rest d =>
      simp only [deserializeCSV, deserializeText] at hop
      repeat' split at hop
      all_goals cases hop
    | _ => simp [deserializeCSV, deserializeText] at hop
  | @work es l m bs f _ hop h_good ih =>
    have h_inv := ih h_full
    cases l with
    | row d =>
      simp only [deserializeCSV, deserializeText] at hop
      cases hop
      exact d.step_collects h_fits h_read h_format h_schema h_inv
    | rest d =>
      obtain ⟨h_out_full, h_splits⟩ := h_inv
      have h_not : ¬ (d.bufferTupleId > 0 ∧ d.bufferTupleId ≠ env.tuplesPerBuffer ∧
          csvText.flushes env.iformat = true) := by simp [h_flushes]
      simp only [deserializeCSV, deserializeText, if_neg h_not] at hop
      split at hop
      · next h_some =>
        cases hop
        dsimp only
        split
        · exact trivial
        · next batch h_batch =>
          -- the rows in the builders make the last batch
          refine h_splits.imp fun rows h_builds => ?_
          obtain ⟨rfl, h_tuples, h_open⟩ := h_builds
          rw [Memory.write_pool_self]
          exact ⟨⟨by omega, by omega, h_open⟩,
            holdsBatch_written h_fits h_read h_batch h_out_full h_tuples⟩
      · next h_none =>
        cases hop
        by_cases h_zero : d.bufferTupleId = 0
        · -- nothing is in the builders
          refine .inl (h_splits.imp fun rows h_builds => ?_).chunked
          exact List.eq_nil_of_length_eq_zero (h_builds.tuples.symm.trans h_zero)
        · -- the builders have `tuples_per_buffer` rows, and these are forgotten
          refine .inr (h_splits.imp fun rows h_builds => ⟨?_, h_builds.opened⟩)
          have h_tuples := h_builds.tuples
          by_contra h_ne
          exact h_none ⟨by omega, by omega, rfl, h_format⟩
    | start => simp only [deserializeCSV, deserializeText, if_neg h_skips] at hop; cases hop
    | skipPush b => exact h_inv.elim
    | thrown i o =>
      simp only [deserializeCSV, deserializeText] at hop
      cases hop
      exact trivial
    | _ => simp [deserializeCSV, deserializeText] at hop

end Run

/-! ### When nothing is lost -/

variable (env readBatch) in
/-- **Every row is in one batch**, in order, and no batch has more rows than a buffer has tuples. -/
def ArrowComplete (es : List (Event Buffer)) : Prop :=
  ∃ batches, batches.flatten = (arrowBatches env readBatch).itemsIn es ∧
    (∀ batch ∈ batches, batch.length ≤ env.tuplesPerBuffer) ∧
    List.Forall₂ (HoldsBatch readBatch) batches (Event.outputs 2 es)

/-- A buffer holds one batch. -/
theorem holdsBatch_leftUnique : Relator.LeftUnique (HoldsBatch readBatch) := fun _ _ _ h h' =>
  Option.some.inj (h.read.symm.trans h'.read)

/-- Up to `tuples_per_buffer = 1000` a full batch would have more rows than a buffer has tuples. -/
theorem lt_length_of_full (h_small : env.tuplesPerBuffer ≤ 1000) {rows : List (List UInt8)}
    (h : (arrowBatches env readBatch).Full rows) : env.tuplesPerBuffer < rows.length := by
  obtain ⟨h_pos, h_length⟩ := h
  rw [toSizeT] at h_length
  split at h_length <;> omega

/-- A batch with more than 1000 tuples to a buffer is not larger than a buffer. -/
theorem length_le_of_full (h_large : 1000 < env.tuplesPerBuffer) {rows : List (List UInt8)}
    (h : (arrowBatches env readBatch).Full rows) : rows.length ≤ env.tuplesPerBuffer := by
  obtain ⟨-, h_length⟩ := h
  rw [show ((env.tuplesPerBuffer : ℤ) - 1000) = ((env.tuplesPerBuffer - 1000 : ℕ) : ℤ) by
    omega, toSizeT_natCast] at h_length
  omega

theorem length_le_of_mem_flatten {α : Type} {batches : List (List α)} {batch : List α}
    (h : batch ∈ batches) : batch.length ≤ batches.flatten.length := by
  rw [List.length_flatten]
  exact List.le_sum_of_mem (List.mem_map_of_mem h)

/-- What a thread has collected when it is done is complete, if a batch can become full or the rows
do not fill a buffer. -/
theorem Deser.Collects.complete {o : Option ℤ} (h : (Deser.done o).Collects env readBatch es p)
    (h_when : 1000 < env.tuplesPerBuffer ∨
      ((arrowBatches env readBatch).itemsIn es).length < env.tuplesPerBuffer) :
    ArrowComplete env readBatch es := by
  -- the rest was flushed, or there was none to flush
  rcases h with ⟨batches, h_chunks⟩ | ⟨batches, rows, -, ⟨h_length, h_open⟩, h_items⟩
  · -- above 1000 tuples every batch but the last is full, below it there is one batch
    refine ⟨batches, h_chunks.flatten, fun batch hb => ?_, h_chunks.holds⟩
    rcases h_when with h_large | h_few
    · by_cases h_last : batch ∈ batches.dropLast
      · exact length_le_of_full h_large (h_chunks.full batch h_last)
      · have h_ne : batches ≠ [] := List.ne_nil_of_mem hb
        have h_eq : batch = batches.getLast h_ne := by
          rw [← List.dropLast_append_getLast h_ne] at hb
          exact List.mem_singleton.mp ((List.mem_append.mp hb).resolve_left h_last)
        have h_mem : batch ∈ batches.getLast? := by
          rw [h_eq, List.getLast?_eq_some_getLast h_ne]; rfl
        rcases h_chunks.last batch h_mem with h_full | ⟨-, -, h_open⟩
        · exact length_le_of_full h_large h_full
        · have h_lt := h_open h_large
          omega
    · have h_le := length_le_of_mem_flatten hb
      rw [h_chunks.flatten] at h_le
      omega
  · rw [List.append_nil] at h_items
    have h_total := congrArg List.length h_items
    rw [List.length_append] at h_total
    rcases h_when with h_large | h_few
    · have h_lt := h_open h_large
      omega
    · omega

/-- If no batch can become full, what a thread has collected is complete only if the rows do not
fill a buffer. -/
theorem Deser.Collects.few {o : Option ℤ} (h : (Deser.done o).Collects env readBatch es p)
    (h_pos : 1 ≤ env.tuplesPerBuffer) (h_small : env.tuplesPerBuffer ≤ 1000)
    (h_complete : ArrowComplete env readBatch es) :
    ((arrowBatches env readBatch).itemsIn es).length < env.tuplesPerBuffer := by
  obtain ⟨batches, h_flatten, h_le, h_holds⟩ := h_complete
  have h_unique : ∀ batches', List.Forall₂ (HoldsBatch readBatch) batches' (Event.outputs 2 es) →
      batches' = batches := fun batches' h' =>
    List.left_unique_forall₂' holdsBatch_leftUnique h' h_holds
  -- no batch was pushed as a full one
  have h_none : ∀ batch ∈ batches, ¬ (arrowBatches env readBatch).Full batch :=
    fun batch hb h_full => Nat.not_le_of_lt (lt_length_of_full h_small h_full) (h_le batch hb)
  rcases h with ⟨batches', h_chunks⟩ | ⟨batches', rows, ⟨h_full, h_holds'⟩, ⟨h_length, -⟩, h_items⟩
  · -- everything is in a batch: all but the last would be full, so there is at most that one
    obtain rfl := h_unique batches' h_chunks.holds
    rcases List.eq_nil_or_concat' batches' with rfl | ⟨init, batch, rfl⟩
    · rw [← h_flatten]
      exact h_pos
    · have h_init : init = [] := by
        rw [List.eq_nil_iff_forall_not_mem]
        intro batch' hb
        exact h_none batch' (List.mem_append_left _ hb)
          (h_chunks.full batch' (by rw [List.dropLast_concat]; exact hb))
      subst h_init
      have h_mem : batch ∈ ([] ++ [batch] : List (List (List UInt8))) := List.mem_singleton_self _
      rcases h_chunks.last batch rfl with h_full | ⟨-, h_ne, -⟩
      · exact absurd h_full (h_none batch h_mem)
      · have h_batch := h_le batch h_mem
        rw [← h_flatten]
        simp only [List.nil_append, List.flatten_singleton]
        omega
  · -- rows are forgotten, and there is no batch: then nothing has been scanned at all
    obtain rfl := h_unique batches' h_holds'
    have h_nil : batches' = [] := by
      rw [List.eq_nil_iff_forall_not_mem]
      exact fun batch hb => h_none batch hb (h_full batch hb)
    subst h_nil
    rw [← h_flatten] at h_items
    simp only [List.flatten_nil, List.nil_append, List.append_nil] at h_items
    rw [← h_items, List.length_nil] at h_length
    omega

/-- **When record batches lose nothing.** A thread that is done has put every row into one batch of
at most `tuples_per_buffer` rows if and only if more than 1000 tuples fit a buffer, or it has seen
less than `tuples_per_buffer` rows. The batches that Arrow writes fit the buffer and are read back
unchanged. -/
theorem arrow_complete_iff {ext : External} (h_format : env.iformat = 3)
    (h_skip : env.skipDeserializer = false) (h_pos : 1 ≤ env.tuplesPerBuffer)
    (h_fits : ∀ rows batch, ext.arrowBatch rows = some batch → batch.length ≤ env.payloadSize)
    (h_read : ∀ rows batch, ext.arrowBatch rows = some batch → readBatch batch = some rows)
    {σ : Type} {m₀ m : Memory Buffer σ} {o : Option ℤ}
    (h : Solo 4 Deser.held (deserializeCSV env ext) Deser.TakesMarker .start m₀ es (.done o) m)
    (h_full : Takes 0 (Full env) es) :
    ArrowComplete env readBatch es ↔ 1000 < env.tuplesPerBuffer ∨
      ((arrowBatches env readBatch).itemsIn es).length < env.tuplesPerBuffer := by
  have h_schema : env.schema ≠ [] := fun h_nil => by
    simp [RuntimeEnv.tuplesPerBuffer, tuplesPerBuffer, tupleSize, h_nil] at h_pos
  have h_collects := deserializeCSV_collects h_fits h_read h_format h_schema h_skip h h_full
  refine ⟨fun h_complete => ?_, h_collects.complete⟩
  by_cases h_large : 1000 < env.tuplesPerBuffer
  · exact .inl h_large
  · exact .inr (h_collects.few h_pos (by omega) h_complete)

/-- A record batch, as a list of rows that are lists of bytes. -/
def rowCode : List (List UInt8) → List UInt8 := listCode (listCode fun b => [b])

/-- Batches are written that way, as far as they fit a buffer. -/
def codedBatches (env : RuntimeEnv) : External :=
  { emptyTable with
    arrowBatch := fun rows =>
      if (rowCode rows).length ≤ env.payloadSize then some (rowCode rows) else none }

/-- A batch, read back. -/
noncomputable def readCoded : List UInt8 → Option (List (List UInt8)) :=
  (Codec.ofInjective rowCode).read

theorem codedBatches_fits (rows : List (List UInt8)) (batch : List UInt8)
    (h : (codedBatches env).arrowBatch rows = some batch) : batch.length ≤ env.payloadSize := by
  obtain ⟨h_le, h_eq⟩ := Option.ite_none_right_eq_some.mp h
  obtain rfl := Option.some.inj h_eq
  exact h_le

theorem codedBatches_read (rows : List (List UInt8)) (batch : List UInt8)
    (h : (codedBatches env).arrowBatch rows = some batch) : readCoded batch = some rows := by
  obtain ⟨-, h_eq⟩ := Option.ite_none_right_eq_some.mp h
  obtain rfl := Option.some.inj h_eq
  have h_lawful : (Codec.ofInjective rowCode).Lawful :=
    Codec.ofInjective_lawful prefixFree_byte.listCode.listCode.injective (listCode_ne_nil _)
  exact h_lawful.read_file rows

/-- 1024 tuples fit a buffer, so a batch is full with 24 rows. -/
def wideBatchEnv : RuntimeEnv :=
  { smallEnv with iformat := 3, bufferSize := 2, schema := [⟨.char, 1⟩, ⟨.char, 1⟩] }

/-- One tuple fits a buffer. -/
def narrowBatchEnv : RuntimeEnv := { lineEnv with iformat := 3 }

/-- 26 rows with a letter in each of two columns. -/
def letterRows : List (List UInt8) :=
  (List.range 26).map fun i => [UInt8.ofNat (97 + i), 44, UInt8.ofNat (65 + i), newline]

/-- A full batch with 24 of the rows is pushed, and one with the other two. -/
theorem arrow_complete_wideBatchEnv :
    ∃ es m, Solo 4 Deser.held (deserializeCSV wideBatchEnv (codedBatches wideBatchEnv))
        Deser.TakesMarker .start (poolWith wideBatchEnv letterRows.flatten) es (.done none) m ∧
      (Event.inputs 1 es).map Buffer.data = [letterRows.flatten] ∧
      (Event.outputs 2 es).map (·.header.totalTuples) = [24, 2] ∧
      ArrowComplete wideBatchEnv readCoded es := by
  -- 26 rows in one buffer: 24 of them flush, the rest follows at the end
  obtain ⟨es, l, m, h_solo, h_free, h_in, h_out, rfl⟩ := exists_solo_of_replay 4 Deser.held
    (deserializeCSV wideBatchEnv (codedBatches wideBatchEnv)) Deser.TakesMarker .start
    (poolWith wideBatchEnv letterRows.flatten) 60 [0, 1, 2, marker]
    (fun es l _ =>
      Event.inputs 0 es = List.replicate 2 ⟨{}, List.replicate wideBatchEnv.payloadSize 0⟩ ∧
      (Event.inputs 1 es).map Buffer.data = [letterRows.flatten] ∧
      (Event.outputs 2 es).map (·.header.totalTuples) = [24, 2] ∧ l = .done none)
    (by decide +kernel)
  have h_full : Takes 0 (Full wideBatchEnv) es := fun c hc => by
    rw [h_free] at hc
    rw [List.eq_of_mem_replicate hc]
    exact List.length_replicate
  exact ⟨es, m, h_solo, h_in, h_out, (arrow_complete_iff rfl rfl (by decide) codedBatches_fits
    codedBatches_read h_solo h_full).mpr (.inl (by decide))⟩

/-- One row fills the buffer: it is lost. -/
theorem arrow_not_complete :
    ∃ es m, Solo 4 Deser.held (deserializeCSV narrowBatchEnv (codedBatches narrowBatchEnv))
        Deser.TakesMarker .start (poolWith narrowBatchEnv [55, newline]) es (.done (some 0)) m ∧
      (Event.inputs 1 es).map Buffer.data = [[55, newline]] ∧ Event.outputs 2 es = [] ∧
      ¬ ArrowComplete narrowBatchEnv readCoded es := by
  -- the one row fills the buffer, and is neither flushed nor taken for a rest
  obtain ⟨es, l, m, h_solo, h_in, h_out, rfl⟩ := exists_solo_of_replay 4 Deser.held
    (deserializeCSV narrowBatchEnv (codedBatches narrowBatchEnv)) Deser.TakesMarker .start
    (poolWith narrowBatchEnv [55, newline]) 10 [0, 1, marker]
    (fun es l _ => Event.inputs 1 es = [⟨{ totalSize := 2 }, [55, newline]⟩] ∧
      Event.outputs 2 es = [] ∧ l = .done (some 0))
    (by decide +kernel)
  refine ⟨es, m, h_solo, by rw [h_in]; rfl, h_out, ?_⟩
  rintro ⟨batches, h_flatten, -, h_holds⟩
  rw [h_out] at h_holds
  obtain rfl := List.forall₂_nil_right_iff.mp h_holds
  have h_items : (arrowBatches narrowBatchEnv readCoded).itemsIn es = [[55, newline]] := by
    rw [Regrouping.itemsIn, arrowBatches, h_in]
    decide
  rw [h_items] at h_flatten
  cases h_flatten

end Batches

end Xdbc.Server
