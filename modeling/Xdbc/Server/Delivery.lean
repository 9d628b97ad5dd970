import Xdbc.Server.Rounds
import Xdbc.Server.Shutdown
import Xdbc.Pipeline.Ledger

/-!
# Every row is delivered once

The rows of a CSV file are followed through the server by double entry. A buffer in the first queue
is worth the rows of its text, a buffer in the later ones the rows of its table; a deserialization
thread carries the rows it has not read yet and those it has written already (`Deser.carry`). The
books are debited when a read thread pushes a buffer, and what is out is what the send threads have
written. The heart is `DeserVars.step_posts`: a round of the loop over the rows moves one row from
the input buffer to the output buffer.

When the send threads have exited, all queues are empty and nobody carries anything
(`delivered`).
-/

namespace Xdbc.Server

open Bytes Pipeline

/-! ### What a deserialization thread carries -/

section Deserialize

variable (X : TextSource) (env : RuntimeEnv) (ext : External)

/-- The rows that are left to read. -/
def DeserVars.inRows (d : DeserVars) (p : ℤ → Buffer) : Multiset Row :=
  textRows X env ext (d.unread p)

/-- The rows in the output buffer. -/
def DeserVars.outRows (d : DeserVars) (p : ℤ → Buffer) : Multiset Row :=
  cellRows X env d.bufferTupleId (p d.outBid).payload

/-- The rows a deserialization thread carries. -/
def Deser.carry (p : ℤ → Buffer) : Deser → Multiset Row
  | .start => 0
  | .skipPush b => textRows X env ext (p b).data
  | .popIn _ => 0
  | .row d => d.inRows X env ext p + d.outRows X env p
  | .flushPush d => d.inRows X env ext p + bufferRows X env ext (p d.outBid)
  | .flushPop d => d.inRows X env ext p
  | .freeIn d => d.outRows X env p
  | .nextIn d => d.outRows X env p
  | .rest d => d.outRows X env p
  | .restPush d => bufferRows X env ext (p d.outBid)
  | .done _ => 0
  | .thrown _ _ => 0

/-- What holds of a deserialization thread and its buffers. -/
def Deser.Ok (p : ℤ → Buffer) : Deser → Prop
  | .skipPush b => (p b).header.intermediateFormat = 0
  | .row d => d.Reads (wellFormedKind X env ext) p ∧ d.Room env
  | .flushPush d => d.Reads (wellFormedKind X env ext) p ∧ d.bufferTupleId = 0
  | .flushPop d => d.Reads (wellFormedKind X env ext) p ∧ d.bufferTupleId = 0
  | .freeIn d => d.Room env
  | .nextIn d => d.Room env
  | .rest d => d.Room env
  | .thrown _ _ => False
  | _ => True

variable {X env ext}

theorem bufferRows_text {b : Buffer} (h : b.header.intermediateFormat = 0) :
    bufferRows X env ext b = textRows X env ext b.data := if_pos h

theorem bufferRows_table {b : Buffer} (h : b.header.intermediateFormat ≠ 0) :
    bufferRows X env ext b = cellRows X env b.header.totalTuples b.data := if_neg h

/-- A full output buffer is worth the rows written to it. -/
theorem bufferRows_full (h_format : env.iformat = 1 ∨ env.iformat = 2)
    (h_width : ∀ a ∈ env.schema, a.width ≤ a.size) (payload : List UInt8) :
    bufferRows X env ext ⟨fullHeader env env.tuplesPerBuffer, payload⟩
      = cellRows X env env.tuplesPerBuffer payload :=
  (bufferRows_table (by change env.iformat ≠ 0; omega)).trans
    (cellRows_take h_width le_rfl (.inr le_rfl) payload)

/-- The last output buffer is worth the rows written to it. -/
theorem bufferRows_rest (h_format : env.iformat = 1 ∨ env.iformat = 2)
    (h_width : ∀ a ∈ env.schema, a.width ≤ a.size) {k : ℕ} (hk : k ≤ env.tuplesPerBuffer)
    (payload : List UInt8) :
    bufferRows X env ext ⟨restHeader env k, payload⟩ = cellRows X env k payload := by
  refine (bufferRows_table (by change env.iformat ≠ 0; omega)).trans
    (cellRows_take h_width hk ?_ payload)
  rcases h_format with h_one | h_two
  · exact .inl ⟨h_one, by simp [restHeader, h_one]⟩
  · exact .inr (by simp [restHeader, h_two])

/-- The first of the rows to read becomes the last of the rows written. -/
private theorem move_row (row : Row) (unread written : List Row) :
    (unread : Multiset Row) + (written ++ [row] : List Row)
      = (row :: unread : List Row) + (written : Multiset Row) := by
  rw [Multiset.coe_add, Multiset.coe_add, Multiset.coe_eq_coe, ← List.append_assoc]
  exact List.perm_append_singleton row _

/-- **A round of the loop moves one row** from the input buffer to the output buffer, or finds the
input buffer read. -/
theorem DeserVars.step_posts {σ : Type} (h_format : env.iformat = 1 ∨ env.iformat = 2)
    (h_flushes : X.flushes env.iformat = true) {d : DeserVars} (h_ne : d.inBid ≠ d.outBid)
    {m : Memory Buffer σ} (h_full : ∀ b, Full env (m.pool b))
    (h_ok : (Deser.row d).Ok X env ext m.pool) :
    (∀ b, Full env ((d.step X env ext m).1.pool b)) ∧
      (d.step X env ext m).2.Ok X env ext (d.step X env ext m).1.pool ∧
      (d.step X env ext m).2.carry X env ext (d.step X env ext m).1.pool
        = (Deser.row d).carry X env ext m.pool ∧
      (d.step X env ext m).1.world = m.world := by
  obtain ⟨h_reads, h_room⟩ := h_ok
  -- a row is left in the input buffer, or none
  by_cases h_lt : d.readOffset < (m.pool d.inBid).header.totalSize
  · obtain ⟨fields, rest, h_meets⟩ := h_reads.meets h_lt
    have h_row : WellFormedRow X env.schema fields := h_meets.row
    have h_width := h_row.plain.room
    have h_rows := h_meets.tuplesPerBuffer_pos (h_full d.inBid)
    have h_k : d.bufferTupleId < env.tuplesPerBuffer := by
      rcases h_room with h_zero | h_room
      · omega
      · exact h_room.1
    obtain ⟨payload, h_length, h_cells, h_step⟩ := d.step_table h_format h_flushes
      h_meets (h_full d.outBid) h_k
    have h_text : textRows X env ext (d.unread m.pool)
        = cells ext env.schema fields :: textRows X env ext rest := by
      rw [h_meets.begins, textRows_rowText_append h_row]
    rw [h_step]
    split
    · next h_flush =>
      -- the row fills the output buffer, which is about to be flushed
      obtain ⟨h_reads', h_left⟩ := h_meets.advance ({ d with
        readOffset := d.readOffset + (rowText X fields).length, bufferTupleId := 0 }) rfl rfl
        (m.write_pool_of_ne h_ne ⟨fullHeader env env.tuplesPerBuffer, payload⟩)
      refine ⟨full_write h_full _ h_length, ⟨h_reads', rfl⟩, ?_, rfl⟩
      simp only [Deser.carry, inRows, outRows, h_left, Memory.write_pool_self]
      rw [h_text, bufferRows_full h_format h_width, ← h_flush, h_cells]
      exact move_row _ _ _
    · next h_more =>
      -- the next row of the same output buffer
      obtain ⟨h_reads', h_left⟩ := h_meets.advance ({ d with
        readOffset := d.readOffset + (rowText X fields).length
        bufferTupleId := d.bufferTupleId + 1 }) rfl rfl
        (m.write_pool_of_ne h_ne { m.pool d.outBid with payload := payload })
      refine ⟨full_write h_full _ h_length, ⟨h_reads', .inr ⟨by simp only; omega, h_width⟩⟩, ?_, rfl⟩
      simp only [Deser.carry, inRows, outRows, h_left, Memory.write_pool_self]
      rw [h_text, h_cells]
      exact move_row _ _ _
  · obtain ⟨h_read, -⟩ := h_reads.read h_lt
    rw [d.step_read h_lt]
    refine ⟨h_full, h_room, ?_, rfl⟩
    simp [Deser.carry, inRows, h_read, textRows]

end Deserialize

/-! ### The books -/

/-- A full buffer of a read thread is text. -/
def ReadCSV.Ok (p : ℤ → Buffer) : ReadCSV → Prop
  | .flushPush r _ _ => (p r.curBid).header.intermediateFormat = 0
  | .lastPush r => (p r.curBid).header.intermediateFormat = 0
  | _ => True

section Books

variable (env : RuntimeEnv) (ext : External)

/-- The rows a compression thread carries without a codec. -/
def Comp.carry (p : ℤ → Buffer) : Comp → Multiset Row
  | .forward b => bufferRows csvText env ext (p b)
  | _ => 0

/-- The rows a send thread carries. -/
def Send.carry (p : ℤ → Buffer) : Send → Multiset Row
  | .write _ b => bufferRows csvText env ext (p b)
  | .boostError b => bufferRows csvText env ext (p b)
  | _ => 0

/-- The rows a thread carries. -/
def carry : (t : Tid 4 (parallelism env)) → Local .csv t.1 → (ℤ → Buffer) → Multiset Row
  | ⟨0, _⟩, _, _ => 0
  | ⟨1, _⟩, l, p => Deser.carry csvText env ext p l
  | ⟨2, _⟩, l, p => Comp.carry env ext p l
  | ⟨3, _⟩, l, p => Send.carry env ext p l

/-- What holds of a thread and its buffers. -/
def Ok : (t : Tid 4 (parallelism env)) → Local .csv t.1 → (ℤ → Buffer) → Prop
  | ⟨0, _⟩, l, p => ReadCSV.Ok p l
  | ⟨1, _⟩, l, p => Deser.Ok csvText env ext p l
  | ⟨2, _⟩, _, _ => True
  | ⟨3, _⟩, _, _ => True

/-- The rows an item in a queue is worth. -/
def weight (q : ℕ) (v : ℤ) (b : Buffer) : Multiset Row :=
  if v = marker then 0
  else match q with
    | 1 => textRows csvText env ext b.data
    | 2 => bufferRows csvText env ext b
    | 3 => bufferRows csvText env ext b
    | _ => 0

/-- The rows a push of a read thread enters. -/
def rowsRead (e : Push Buffer) : Multiset Row :=
  if e.item = marker ∨ e.queue ≠ 1 then 0 else textRows csvText env ext e.content.data

/-- The rows the send threads have written. -/
def rowsSent (w : Sockets) : Multiset Row :=
  ∑ i ∈ Finset.range env.networkParallelism, ((w i).flatMap (bufferRows csvText env ext) : List Row)

/-- The rows of the server, in all places. -/
def rowBooks : Books (machine .csv env ext) (Multiset Row) where
  queues := 5
  weight := weight env ext
  valid q _ b := q = 1 → WholeRows csvText env b ∧ b.header.intermediateFormat = 0
  carry := carry env ext
  ok := Ok env ext
  out := rowsSent env ext
  debit := rowsRead env ext
  credit _ := 0
  fine e := e.queue = 1 → e.item ≠ marker → WholeRows csvText env e.content
  fit := Full env

variable {env ext} {bad : (t : Tid 4 (parallelism env)) → Local .csv t.1 → Prop}

/-- Reading posts what is pushed. -/
theorem readCSV_posts (i : Fin env.readParallelism) (l : ReadCSV)
    (h_none : NoMarker ReadCSV.held l) :
    (rowBooks env ext).Posts bad ⟨0, i⟩ l (readCSV env ext i l) := by
  -- copying a line is the same step in `next` and after a flush
  have h_copy : ∀ (r : CsvVars) (p : ℤ) (line : List UInt8),
      (rowBooks env ext).Posts bad ⟨0, i⟩ l (.work [r.curBid] (r.copyLine p line)) :=
    fun r p line m h_full _ _ =>
      ⟨full_write h_full _ ((length_put _ _ _).trans (h_full r.curBid)), trivial, rfl⟩
  cases l with
  | start =>
    simp only [readCSV]
    split
    · exact ⟨by simp [rowBooks], fun v p _ _ _ _ _ => ⟨trivial, by simp [rowBooks, carry, weight]⟩⟩
    · trivial
  | popPart r =>
    refine ⟨by simp [rowBooks, partQueue], fun v p _ _ _ _ _ => ?_⟩
    dsimp only
    split <;> exact ⟨trivial, by simp [rowBooks, carry, weight]⟩
  | takePart r p => exact fun m h_full _ _ => ⟨h_full, trivial, rfl⟩
  | next r p =>
    simp only [readCSV]
    -- a line is left in the partition: it is kept back, does not fit, or is copied
    split
    · split
      · exact fun m h_full _ _ => ⟨h_full, trivial, rfl⟩
      · split
        · refine fun m h_full _ _ => ⟨full_write h_full _ (h_full r.curBid), ?_, rfl⟩
          simp [rowBooks, Ok, ReadCSV.Ok, CsvVars.writeHeader]
        · exact h_copy _ _ _
    · exact fun m h_full _ _ => ⟨h_full, trivial, rfl⟩
  | flushPush r p line =>
    have hb : r.curBid ≠ marker := h_none _ (by simp [ReadCSV.held])
    refine ⟨by simp [rowBooks], fun p _ h_ok h_fine _ => ⟨fun _ => ⟨h_fine rfl hb, h_ok⟩, trivial, ?_⟩⟩
    simp [rowBooks, carry, weight, rowsRead]
  | flushPop r p line =>
    exact ⟨by simp [rowBooks], fun v p _ _ _ _ _ => ⟨trivial, by simp [rowBooks, carry, weight]⟩⟩
  | copy r p line => exact h_copy _ _ _
  | last r =>
    refine fun m h_full _ _ => ⟨full_write h_full _ (h_full r.curBid), ?_, rfl⟩
    simp [rowBooks, Ok, ReadCSV.Ok, CsvVars.writeHeader]
  | lastPush r =>
    have hb : r.curBid ≠ marker := h_none _ (by simp [ReadCSV.held])
    refine ⟨by simp [rowBooks], fun p _ h_ok h_fine _ => ⟨fun _ => ⟨h_fine rfl hb, h_ok⟩, trivial, ?_⟩⟩
    simp [rowBooks, carry, weight, rowsRead]
  | done => trivial

/-- Deserializing turns text into tables, row by row. -/
theorem deserializeCSV_posts (h_format : env.iformat = 1 ∨ env.iformat = 2)
    (i : Fin env.deserParallelism) (l : Deser) (h_none : NoMarker Deser.held l)
    (h_nodup : (Deser.held l).Nodup)
    (h_bad : ∀ l, Deser.TakesMarker l → bad ⟨1, i⟩ l) :
    (rowBooks env ext).Posts bad ⟨1, i⟩ l (deserializeCSV env ext l) := by
  have h_flushes : csvText.flushes env.iformat = true := by simpa [csvText] using h_format
  -- the text formats flush when the buffer is full
  cases l with
  | start =>
    simp only [deserializeCSV, deserializeText]
    split
    · refine ⟨by simp [rowBooks], fun v p _ _ _ h_valid _ => ?_⟩
      -- a marker carries nothing, a buffer the rows of its text
      by_cases hv : v = marker
      · simp [rowBooks, Ok, Deser.Ok, carry, Deser.carry, weight, hv]
      · simpa [rowBooks, Ok, Deser.Ok, carry, Deser.carry, weight, hv] using (h_valid hv rfl).2
    · refine ⟨by simp [rowBooks], fun v p _ _ _ _ _ => ?_⟩
      simp [rowBooks, Ok, Deser.Ok, carry, Deser.carry, weight]
  -- skipped: the text is passed on, and it has no rows of its own
  | skipPush b =>
    refine ⟨by simp [rowBooks], fun p _ h_ok _ _ => ⟨fun h => absurd h (by decide), trivial, ?_⟩⟩
    have hb : b ≠ marker := h_none b (by simp [Deser.held])
    simp [rowBooks, carry, Deser.carry, weight, rowsRead, hb, bufferRows_text h_ok]
  | popIn o =>
    refine ⟨by simp [rowBooks], fun v p _ _ _ h_valid h_not => ?_⟩
    -- a marker here is what `h_bad` excludes
    have hv : v ≠ marker := by rintro rfl; exact h_not (h_bad _ rfl)
    obtain ⟨h_whole, -⟩ := h_valid hv rfl
    refine ⟨⟨⟨h_whole.text, h_whole.size, Nat.zero_le _⟩, .inl rfl⟩, ?_⟩
    simp [rowBooks, carry, Deser.carry, DeserVars.inRows, DeserVars.outRows, DeserVars.unread, weight,
      hv, cellRows]
  | row d =>
    have h_ne : d.inBid ≠ d.outBid := by simpa [Deser.held] using h_nodup
    intro m h_full h_ok _
    obtain ⟨h_full', h_ok', h_carry, h_world⟩ := d.step_posts h_format h_flushes h_ne h_full h_ok
    exact ⟨h_full', h_ok', congrArg₂ (· + rowsSent env ext ·) h_carry h_world⟩
  | flushPush d =>
    refine ⟨by simp [rowBooks], fun p _ h_ok _ _ => ⟨fun h => absurd h (by decide), h_ok, ?_⟩⟩
    have hb : d.outBid ≠ marker := h_none _ (by simp [Deser.held])
    simp [rowBooks, carry, Deser.carry, weight, rowsRead, hb]
  | flushPop d =>
    refine ⟨by simp [rowBooks], fun v p _ h_ok _ _ _ =>
      ⟨⟨⟨h_ok.1.whole, h_ok.1.size, h_ok.1.offset⟩, .inl h_ok.2⟩, ?_⟩⟩
    have h_zero : d.bufferTupleId = 0 := h_ok.2
    simp [rowBooks, carry, Deser.carry, weight, DeserVars.inRows, DeserVars.outRows, DeserVars.unread,
      cellRows, h_zero]
  | freeIn d =>
    refine ⟨by simp [rowBooks], fun p _ h_ok _ _ => ⟨fun h => absurd h (by decide), h_ok, ?_⟩⟩
    simp [rowBooks, carry, Deser.carry, weight, rowsRead]
  | nextIn d =>
    refine ⟨by simp [rowBooks], fun v p _ h_ok _ h_valid _ => ?_⟩
    -- the marker ends the loop, a buffer brings its rows
    by_cases hv : v = marker
    · simp only [hv]
      exact ⟨h_ok, by simp [rowBooks, carry, Deser.carry, weight]⟩
    · obtain ⟨h_whole, -⟩ := h_valid hv rfl
      simp only [if_neg hv]
      refine ⟨⟨⟨h_whole.text, h_whole.size, Nat.zero_le _⟩, h_ok⟩, ?_⟩
      simp [rowBooks, carry, Deser.carry, DeserVars.inRows, DeserVars.outRows, DeserVars.unread,
        weight, hv, add_comm]
  | rest d =>
    simp only [deserializeCSV, deserializeText, h_flushes, and_true]
    -- what is left in the output buffer, if anything, is a table of fewer rows
    split
    · next h_some =>
      intro m h_full h_ok _
      obtain ⟨h_lt, h_width⟩ := h_ok.resolve_left (by omega)
      refine ⟨full_write h_full _ (h_full d.outBid), trivial, ?_⟩
      refine congrArg (· + rowsSent env ext m.world) ?_
      simp only [rowBooks, carry, Deser.carry, DeserVars.outRows, Memory.write_pool_self]
      rw [bufferRows_rest h_format h_width h_lt.le]
    · next h_none_left =>
      rw [if_neg (by omega)]
      intro m h_full h_ok _
      have h_zero : d.bufferTupleId = 0 := by
        rcases h_ok with h_zero | ⟨h_lt, -⟩
        · exact h_zero
        · omega
      refine ⟨h_full, trivial, ?_⟩
      simp [rowBooks, carry, Deser.carry, DeserVars.outRows, cellRows, h_zero]
  | restPush d =>
    refine ⟨by simp [rowBooks], fun p _ _ _ _ => ⟨fun h => absurd h (by decide), trivial, ?_⟩⟩
    have hb : d.outBid ≠ marker := h_none _ (by simp [Deser.held])
    simp [rowBooks, carry, Deser.carry, weight, rowsRead, hb]
  | done o => trivial
  | thrown i o => exact fun m _ h_ok _ => h_ok.elim

/-- Without a codec the compressors hand the rows on. -/
theorem compress_posts (h_id : getCompId env.compressionAlgorithm = 0)
    (i : Fin env.compressionParallelism) (l : Comp) (h_none : NoMarker Comp.held l)
    (h_forwards : l.Forwards) :
    (rowBooks env ext).Posts bad ⟨2, i⟩ l (compress env ext l) := by
  cases l with
  | popIn =>
    refine ⟨by simp [rowBooks], fun v p _ _ _ _ _ => ⟨trivial, ?_⟩⟩
    by_cases hv : v = marker
    · simp [rowBooks, carry, Comp.carry, weight, hv]
    · simp [rowBooks, carry, Comp.carry, weight, hv, h_id]
  | forward b =>
    refine ⟨by simp [rowBooks], fun p _ _ _ _ => ⟨fun h => absurd h (by decide), trivial, ?_⟩⟩
    have hb : b ≠ marker := h_none _ (by simp [Comp.held])
    simp [rowBooks, carry, Comp.carry, weight, rowsRead, hb]
  | done => trivial
  | _ => exact h_forwards.elim

/-- A send thread writes the rows of a buffer to its socket. -/
theorem rowsSent_update {i : ℕ} (hi : i < env.networkParallelism) (w : Sockets) (b : Buffer) :
    rowsSent env ext (Function.update w i (w i ++ [b]))
      = rowsSent env ext w + bufferRows csvText env ext b := by
  have h := sum_update_add
    (fun _ (bs : List Buffer) => ((bs.flatMap (bufferRows csvText env ext) : List Row) : Multiset Row))
    w (Finset.mem_range.mpr hi) (w i ++ [b])
  rw [List.flatMap_append, List.flatMap_singleton, ← Multiset.coe_add, ← add_assoc,
    add_right_comm] at h
  exact add_right_cancel h

theorem send_posts (i : Fin env.networkParallelism) (l : Send) (h_none : NoMarker Send.held l) :
    (rowBooks env ext).Posts bad ⟨3, i⟩ l (send ext i l) := by
  cases l with
  | popIn j =>
    refine ⟨by simp [rowBooks], fun v p _ _ _ _ _ => ⟨trivial, ?_⟩⟩
    by_cases hv : v = marker
    · simp [rowBooks, carry, Send.carry, weight, hv]
    · simp [rowBooks, carry, Send.carry, weight, hv]
  | write j b =>
    simp only [send]
    split
    · exact fun m h_full _ _ => ⟨h_full, trivial, rfl⟩
    · refine fun m h_full _ _ => ⟨h_full, trivial, ?_⟩
      -- the header announces the same payload of the copy
      have h_sent : bufferRows csvText env ext ⟨(m.pool b).header, (m.pool b).data⟩
          = bufferRows csvText env ext (m.pool b) := by
        simp only [bufferRows, Buffer.data, List.take_take, Nat.min_self]
      change 0 + rowsSent env ext (Function.update m.world i _)
        = (bufferRows csvText env ext (m.pool b) : Multiset Row) + rowsSent env ext m.world
      rw [rowsSent_update i.2, h_sent, zero_add, add_comm]
  | free j b =>
    refine ⟨by simp [rowBooks], fun p _ _ _ _ => ⟨fun h => absurd h (by decide), trivial, ?_⟩⟩
    simp [rowBooks, carry, Send.carry, weight, rowsRead]
  | done => trivial
  | boostError b => trivial

end Books

/-! ### The server's ledger -/

variable {env : RuntimeEnv} {ext : External}

/-- What a deserialization thread carries is in the buffers it holds. -/
theorem Deser.carry_congr {X : TextSource} {l : Deser} {p p' : ℤ → Buffer}
    (h : ∀ b ∈ l.held, p b = p' b) : l.carry X env ext p = l.carry X env ext p' := by
  cases l <;> simp_all [Deser.carry, Deser.held, DeserVars.inRows, DeserVars.outRows,
    DeserVars.unread]

theorem Deser.ok_congr {X : TextSource} {l : Deser} {p p' : ℤ → Buffer}
    (h : ∀ b ∈ l.held, p b = p' b) (h_ok : l.Ok X env ext p) : l.Ok X env ext p' := by
  cases l with
  | row d => exact ⟨h_ok.1.congr (h _ (by simp [Deser.held])).symm, h_ok.2⟩
  | flushPush d => exact ⟨h_ok.1.congr (h _ (by simp [Deser.held])).symm, h_ok.2⟩
  | flushPop d => exact ⟨h_ok.1.congr (h _ (by simp [Deser.held])).symm, h_ok.2⟩
  | skipPush b =>
    have h_eq := h b (by simp [Deser.held])
    change (p' b).header.intermediateFormat = 0
    rw [← h_eq]
    exact h_ok
  | _ => exact h_ok

/-- The rows of the CSV file as a ledger of the server. -/
def rowLedger (h_id : getCompId env.compressionAlgorithm = 0)
    (h_format : env.iformat = 1 ∨ env.iformat = 2)
    (bad : (t : Tid 4 (parallelism env)) → Local .csv t.1 → Prop)
    (h_bad : ∀ t l, sentinelTaken .csv env t l → bad t l) :
    Ledger (custody .csv env ext bad h_bad) (Multiset Row) where
  toBooks := rowBooks env ext
  weight_marker q b := by simp [rowBooks, weight]
  debit_marker q b := by simp [rowBooks, rowsRead]
  credit_marker _ _ := rfl
  weight_private q v c c' hq := by
    match q, hq with
    | _ + 4, _ => rfl
  valid_private q _ _ _ hq _ h := by
    change q = 1 at h
    subst h
    exact absurd hq Nat.not_ofNat_le_one
  carry_congr := by
    rintro ⟨k, i⟩ l p p' - h
    match k, i, l, h with
    | 0, _, _, _ => rfl
    | 1, _, l, h => exact Deser.carry_congr h
    | 2, _, l, h => cases l <;> simp_all [rowBooks, carry, Comp.carry, custody, held, Comp.held]
    | 3, _, l, h => cases l <;> simp_all [rowBooks, carry, Send.carry, custody, held, Send.held]
  ok_congr := by
    rintro ⟨k, i⟩ l p p' - h h_ok
    match k, i, l, h, h_ok with
    | 0, _, l, h, h_ok =>
      cases l <;> simp_all [rowBooks, Ok, ReadCSV.Ok, custody, held, ReadCSV.held]
    | 1, _, l, h, h_ok => exact Deser.ok_congr h h_ok
    | 2, _, _, _, _ => trivial
    | 3, _, _, _, _ => trivial
  careful t l _ := prog_careful .csv env ext t l
  posts := by
    rintro ⟨k, i⟩ l h_wf h_nodup
    match k, i, l, h_wf, h_nodup with
    | 0, i, l, h_wf, _ => exact readCSV_posts i l h_wf
    | 1, i, l, h_wf, h_nodup =>
      exact deserializeCSV_posts h_format i l h_wf.1 h_nodup (h_bad ⟨1, i⟩)
    | 2, i, l, h_wf, _ => exact compress_posts h_id i l h_wf.1 (h_wf.2 h_id)
    | 3, i, l, h_wf, _ => exact send_posts i l h_wf.1

/-- When the threads start, the books are empty. -/
theorem balanced_initial (h_id : getCompId env.compressionAlgorithm = 0)
    (h_format : env.iformat = 1 ∨ env.iformat = 2)
    {bad : (t : Tid 4 (parallelism env)) → Local .csv t.1 → Prop}
    {h_bad : ∀ t l, sentinelTaken .csv env t l → bad t l} :
    (rowLedger h_id h_format bad h_bad : Ledger (custody .csv env ext bad h_bad) _).Balanced 0
      (initial .csv env ext) where
  fit _ := List.length_replicate
  ok t := by
    obtain ⟨k, i⟩ := t
    match k, i with
    | 0, _ => trivial
    | 1, _ => trivial
    | 2, _ => trivial
    | 3, _ => trivial
  valid q v hv := by
    rintro - rfl
    cases hv
  -- no thread has rows in hand, and only free buffers and partitions are queued
  total := by
    have h_carry : ∀ t : Tid 4 (parallelism env),
        carry env ext t (startPoint .csv t.1) (fun _ => emptyBuffer env) = 0 := by
      rintro ⟨k, i⟩
      match k, i with
      | 0, _ => rfl
      | 1, _ => rfl
      | 2, _ => rfl
      | 3, _ => rfl
    have h_queue : ∀ q : ℕ, (rowBooks env ext).queueWorth (fun _ => emptyBuffer env) q
        (initialQueue env q) = 0 := by
      intro q
      match q with
      | 0 => exact List.sum_eq_zero (by simp [rowBooks, weight])
      | 1 => rfl
      | 2 => rfl
      | 3 => rfl
      | 4 => exact List.sum_eq_zero (by simp [rowBooks, weight])
      | _ + 5 => rfl
    have h_out : rowsSent env ext (fun _ => []) = 0 := Finset.sum_eq_zero fun i _ => rfl
    change ∑ q ∈ Finset.range 5, (rowBooks env ext).queueWorth (fun _ => emptyBuffer env) q
        (initialQueue env q)
      + ∑ t, carry env ext t (startPoint .csv t.1) (fun _ => emptyBuffer env)
      + rowsSent env ext (fun _ => []) + 0 = 0 + 0
    rw [Finset.sum_eq_zero fun q _ => h_queue q, Finset.sum_eq_zero fun t _ => h_carry t, h_out]
    rfl

/-- A thread that has stopped carries nothing. -/
theorem carry_stopped (h : Undisturbed .csv env ext) {t : Tid 4 (parallelism env)}
    {l : Local .csv t.1} (h_sound : Sound .csv env ext t l)
    (h_stopped : (machine .csv env ext).prog t l = .leave ∨ (machine .csv env ext).prog t l = .quit)
    (p : ℤ → Buffer) : carry env ext t l p = 0 := by
  obtain ⟨k, i⟩ := t
  match k, i, l, h_sound, h_stopped with
  | 0, _, _, _, _ => rfl
  -- the threads that read and deserialize end without a buffer
  | 1, i, l, _, h_stopped =>
    change deserializeCSV env ext l = .leave ∨ deserializeCSV env ext l = .quit at h_stopped
    cases l with
    | done o => rfl
    | start =>
      simp only [deserializeCSV, deserializeText] at h_stopped
      split at h_stopped <;> simp at h_stopped
    | rest d =>
      simp only [deserializeCSV, deserializeText] at h_stopped
      repeat' split at h_stopped
      all_goals simp at h_stopped
    | _ => simp [deserializeCSV, deserializeText] at h_stopped
  | 2, i, l, _, h_stopped =>
    change compress env ext l = .leave ∨ compress env ext l = .quit at h_stopped
    cases l with
    | forward b => simp [compress] at h_stopped
    | _ => rfl
  -- a send thread whose socket fails would keep one
  | 3, i, l, h_sound, h_stopped =>
    change send ext i l = .leave ∨ send ext i l = .quit at h_stopped
    cases l with
    | write j b => simp [send, h.sends] at h_stopped
    | boostError b =>
      obtain ⟨j, h_fails⟩ := h_sound.2 b rfl
      exact absurd h_fails (by simp [h.sends])
    | _ => rfl

/-- **Every row is delivered once.** Once the send threads have exited, what they have written are
the rows the read threads have pushed, each of them once: in all runs without socket errors in which
no deserialization thread takes the end marker for its first buffer, and the buffers of the read
threads contain whole rows. -/
theorem delivered (h_staff : Staffed env) (h : Undisturbed .csv env ext)
    (h_id : getCompId env.compressionAlgorithm = 0) (h_format : env.iformat = 1 ∨ env.iformat = 2)
    {s : State (machine .csv env ext)}
    (h_run : Reachable (machine .csv env ext) (sentinelTaken .csv env) (initial .csv env ext) s)
    (h_rows : ∀ e ∈ s.log, e.queue = 1 → e.item ≠ marker → WholeRows csvText env e.content)
    (h_exited : ∀ i, (s.thread ⟨3, i⟩).Exited) :
    rowsSent env ext s.mem.world = (s.log.map (rowsRead env ext)).sum := by
  have h_bad : ∀ t l, sentinelTaken .csv env t l → sentinelTaken .csv env t l := fun _ _ h => h
  obtain ⟨h_kept, h_handed⟩ := (signals h.opens _ h_bad).handed h_run kept_initial
    (handed_initial h_staff h.opens)
  obtain ⟨h_empty, h_stopped⟩ := h_handed.drain (signals h.opens _ h_bad) (signals_clean h) h_kept
    h_staff.pos fun t ht => by
    obtain ⟨k, i⟩ := t
    obtain rfl : k = 3 := Fin.ext (by simpa using ht)
    exact h_exited i
  have h_total := (Ledger.balanced (B := rowLedger h_id h_format _ h_bad) h_run kept_initial
    (pool_nodup env) (balanced_initial h_id h_format) h_rows).total
  have h_queue : ∀ q : ℕ, (rowBooks env ext).queueWorth s.mem.pool q (s.queue q) = 0 := by
    intro q
    refine List.sum_eq_zero fun x hx => ?_
    obtain ⟨v, hv, rfl⟩ := List.mem_map.mp hx
    by_cases hq : 0 < q ∧ q < 4
    · -- only end markers are left
      have h_marker : v = marker := by
        by_contra h_ne
        have h_mem := mem_ids.mpr ⟨hv, h_ne⟩
        rw [h_empty q hq.1 hq.2] at h_mem
        exact absurd h_mem (Multiset.notMem_zero v)
      simp [rowBooks, weight, h_marker]
    · simp only [rowBooks, weight]
      split
      · rfl
      · match q, hq with
        | 0, _ => rfl
        | _ + 4, _ => rfl
  have h_carry : ∀ t, carry env ext t (s.thread t).loc s.mem.pool = 0 := fun t =>
    carry_stopped h (h_kept.wf t) (h_stopped t) _
  have h_credits : (rowBooks env ext).credits s.log = 0 :=
    List.sum_eq_zero fun x hx => by
      obtain ⟨e, -, rfl⟩ := List.mem_map.mp hx
      rfl
  change ∑ q ∈ Finset.range 5, (rowBooks env ext).queueWorth s.mem.pool q (s.queue q)
    + ∑ t, carry env ext t (s.thread t).loc s.mem.pool + rowsSent env ext s.mem.world
    + (rowBooks env ext).credits s.log = 0 + (s.log.map (rowsRead env ext)).sum at h_total
  rwa [Finset.sum_eq_zero fun q _ => h_queue q, Finset.sum_eq_zero fun t _ => h_carry t, h_credits,
    add_zero, zero_add, zero_add, zero_add] at h_total

/-- Two threads in each stage. -/
def pairsEnv : RuntimeEnv :=
  { smallEnv with
    bufferSize := 1, buffersInBufferpool := 48, readParallelism := 2, compressionParallelism := 2,
    networkParallelism := 2 }

/-- A table of four rows. -/
def fourRows : External where
  file := [55, newline, 56, newline, 57, newline, 54, newline]
  codecs := storingCodecs

/-- The two threads of a stage take turns, and both leave before one of them compares. -/
def inTurns (k : Fin 4) (h : parallelism pairsEnv k = 2) (turns : ℕ) :
    List (Tid 4 (parallelism pairsEnv)) :=
  (List.replicate turns [⟨k, ⟨0, h ▸ Nat.two_pos⟩⟩, ⟨k, ⟨1, h ▸ Nat.one_lt_two⟩⟩]).flatten

def pairsRun : List (Tid 4 (parallelism pairsEnv)) :=
  inTurns 0 rfl 20 ++ inTurns 1 rfl 20 ++ inTurns 2 rfl 8 ++ inTurns 3 rfl 5

/-- What the read threads push: nothing at first, and then one row in a buffer. -/
def fourTexts : List (List UInt8) := [[], [55, newline], [56, newline], [57, newline], [54, newline]]

/-- The buffer contains one of these texts. -/
def HasFourText (b : Buffer) : Prop := b.data ∈ fourTexts ∧ b.header.totalSize = b.data.length

instance (b : Buffer) : Decidable (HasFourText b) := inferInstanceAs (Decidable (_ ∧ _))

theorem HasFourText.wholeRows {b : Buffer} (h : HasFourText b) : WholeRows csvText pairsEnv b where
  text := by
    have h_data := h.1
    have h_row : ∀ x : UInt8, (x ≠ 44 ∧ x ≠ newline ∧ x ≠ 0) → b.data = [x, newline] →
        Whole csvText pairsEnv b.data := by
      rintro x hx h_line
      refine ⟨[[[x]]], fun fields hf => ?_, h_line⟩
      obtain rfl := List.mem_singleton.mp hf
      refine ⟨by decide, .cons ⟨?_, ?_, ?_, ?_, trivial⟩ .nil⟩ <;>
        simp [csvText, SchemaAttribute.width, hx.1.symm, hx.2.1.symm, hx.2.2.symm]
    simp only [fourTexts, List.mem_cons, List.not_mem_nil, or_false] at h_data
    rcases h_data with h_nil | h_line | h_line | h_line | h_line
    · exact ⟨[], fun _ h => absurd h List.not_mem_nil, h_nil⟩
    · exact h_row 55 (by decide) h_line
    · exact h_row 56 (by decide) h_line
    · exact h_row 57 (by decide) h_line
    · exact h_row 54 (by decide) h_line
  size := h.2.symm

/-- The rows of both partitions are delivered, one of them on each connection, though both threads
of a stage take themselves for the last one and push twice as many end markers as are taken. -/
theorem delivered_pairsEnv :
    ∃ s, Reachable (machine .csv pairsEnv fourRows) (sentinelTaken .csv pairsEnv)
        (initial .csv pairsEnv fourRows) s ∧
      (∀ i : Fin 2, (s.thread ⟨3, i⟩).Exited) ∧
      (s.mem.world 0).map Buffer.data = [[9, 0, 0, 0, 6, 0, 0, 0]] ∧
      (s.mem.world 1).map Buffer.data = [[7, 0, 0, 0, 8, 0, 0, 0]] ∧
      (s.log.filter (·.item = marker)).map Push.queue = [3, 3, 3, 3, 2, 2, 2, 2, 1, 1, 1, 1] ∧
      rowsSent pairsEnv fourRows s.mem.world = (s.log.map (rowsRead pairsEnv fourRows)).sum := by
  obtain ⟨s, h_run, h_exited, h_zero, h_one, h_markers, h_log⟩ := exists_reachable .csv pairsEnv
    fourRows (sentinelTaken .csv pairsEnv) pairsRun
    (fun s => (∀ i : Fin 2, (s.thread ⟨3, i⟩).Exited) ∧
      (s.mem.world 0).map Buffer.data = [[9, 0, 0, 0, 6, 0, 0, 0]] ∧
      (s.mem.world 1).map Buffer.data = [[7, 0, 0, 0, 8, 0, 0, 0]] ∧
      (s.log.filter (·.item = marker)).map Push.queue = [3, 3, 3, 3, 2, 2, 2, 2, 1, 1, 1, 1] ∧
      ∀ e ∈ s.log, e.queue = 1 → e.item ≠ marker → HasFourText e.content) (by decide +kernel)
  exact ⟨s, h_run, h_exited, h_zero, h_one, h_markers,
    delivered ⟨by decide, by decide, by decide, by decide⟩ ⟨fun _ _ _ => rfl, fun _ _ => rfl⟩ rfl
      (.inl rfl) h_run (fun e he hq hm => (h_log e he hq hm).wholeRows) h_exited⟩

end Xdbc.Server
