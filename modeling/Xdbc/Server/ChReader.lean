import Xdbc.Bytes.Count
import Xdbc.Bytes.Double
import Xdbc.Pipeline.Crew
import Xdbc.Server.Readers
import Xdbc.Server.Rows
import Xdbc.Server.Stages
import Xdbc.Wire

/-!
# The read threads for ClickHouse

`CHReader::chWriteToBp` as a program of the pipeline. It deserializes itself and pushes its buffers
to the compressor. A buffer is a block of memory here, as the thread writes its rows to the
beginning of it, where the other stages expect the header. It takes `buffer_size` for a number of
tuples, and what is left when the last partition has been read is pushed only if a counter is
positive which only this push increments.

What the threads should do is to push buffers that describe themselves and contain all rows
(`ChDelivers`). They do so only if there are no rows (`chDelivers_iff`): with buffers that were
empty, a header that names its format has used up a byte of a row (`Describes.lt_countP`).
-/

namespace Xdbc.Server

open Function Bytes Pipeline

/-! ### Result blocks -/

/-- A value of a result block: an integer, a decimal with two places, or one of another kind. -/
inductive ChValue where
  | int32 (v : ℤ)
  | decimal (v : ℤ)
  | other (bytes : List UInt8)

/-- The rows of a result block. -/
abbrev ChBlock : Type := List (List ChValue)

/-- `(double) col->At(i) * 0.01`. -/
def decimalToDouble (v : ℤ) : UInt64 := mulDouble (doubleOfInt v) 0x3F847AE147AE147B

/-- The memory of a value. -/
def ChValue.cell : ChValue → List UInt8
  | .int32 v => int32Bytes v
  | .decimal v => doubleBytes (decimalToDouble v)
  | .other bytes => bytes

/-- The cells of the rows. -/
def ChBlock.rows (block : ChBlock) : List Row := block.map fun row => row.map ChValue.cell

/-! ### `chWriteToBp` -/

section Program

variable (env : RuntimeEnv)

/-- The loop over the attributes of a row. Only integers and decimals are written, and only they
advance in the tuple. -/
def writeTuple (bufferTupleId : ℕ) :
    List SchemaAttribute → List ChValue → (bytesInTuple : ℕ) → List UInt8 → List UInt8
  | a :: schema, v :: row, bytesInTuple, block =>
    if a.tpe = .int ∨ a.tpe = .double then
      let writePtr :=
        if env.iformat = 1 then bufferTupleId * env.tupleSize + bytesInTuple
        else bytesInTuple * env.bufferSize + bufferTupleId * a.size
      writeTuple bufferTupleId schema row (bytesInTuple + a.size) (put block writePtr v.cell)
    else writeTuple bufferTupleId schema row bytesInTuple block
  | _, _, _, block => block

/-- The loop over the remaining tuples, which writes to one address. -/
def fillRest (bufferTupleId : ℕ) (block : List UInt8) : List UInt8 :=
  let writePtr :=
    if env.iformat = 1 then bufferTupleId * env.tupleSize
    else bufferTupleId * (env.schema.map SchemaAttribute.size).headD 0
  if bufferTupleId < env.bufferSize then put block writePtr (int32Bytes (-1)) else block

/-- What the threads share beside the buffers. -/
structure ChWorld where
  partStack : List ℕ
  totalReadBuffers : ℕ
  /-- The buffers that have been pushed to `compBufferPtr`. -/
  compBuffer : List (List UInt8)

/-- A buffer is pushed. -/
def ChWorld.push (w : ChWorld) (block : List UInt8) : ChWorld :=
  { w with compBuffer := w.compBuffer ++ [block] }

/-- The program points of `chWriteToBp`. -/
inductive ChRead where
  | start
  | nextPart (curBid : ℤ) (bufferTupleId : ℕ)
  /-- The callback for the result blocks of a query. -/
  | select (curBid : ℤ) (bufferTupleId : ℕ) (blocks : List ChBlock)
  | pushFull (curBid : ℤ) (blocks : List ChBlock)
  | popFree (blocks : List ChBlock)
  /-- The remaining tuples. -/
  | remaining (curBid : ℤ) (bufferTupleId : ℕ)
  | pushRest (curBid : ℤ) (bufferTupleId : ℕ)
  | countRest (curBid : ℤ) (bufferTupleId : ℕ)
  | done (curBid : ℤ)

/-- `CHReader::chWriteToBp`; `result` are the result blocks of the query for a partition. -/
def chWriteToBp (result : ℕ → List ChBlock) : ChRead → Op ChRead (List UInt8) ChWorld
  | .start => .pop 0 fun b => .nextPart b 0
  | .nextPart b k => .work [] fun m =>
    match m.world.partStack with
    | [] => (m, .done b)
    | part :: parts =>
      ({ m with world := { m.world with partStack := parts } }, .select b k (result part))
  | .select b k blocks => .work [b] fun m =>
    match blocks with
    | [] => (m, .remaining b k)
    | [] :: blocks => (m, .select b k blocks)
    | (row :: rows) :: blocks =>
      let m := m.write b (writeTuple env k env.schema row 0 (m.pool b))
      if k + 1 = env.bufferSize then (m, .pushFull b (rows :: blocks))
      else (m, .select b (k + 1) (rows :: blocks))
  | .pushFull b blocks => .work [b] fun m =>
    ({ m with world := m.world.push (m.pool b) }, .popFree blocks)
  | .popFree blocks => .pop 0 fun b => .select b 0 blocks
  | .remaining b k => .work [b] fun m =>
    if 0 < m.world.totalReadBuffers ∧ k ≠ env.bufferSize then
      (m.write b (fillRest env k (m.pool b)), .pushRest b k)
    else (m, .nextPart b k)
  | .pushRest b k => .work [b] fun m =>
    ({ m with world := m.world.push (m.pool b) }, .countRest b k)
  | .countRest b k => .work [] fun m =>
    ({ m with world := { m.world with totalReadBuffers := m.world.totalReadBuffers + 1 } },
      .nextPart b k)
  | .done _ => .leave

/-- The buffers the live local variables name. -/
def ChRead.held : ChRead → Multiset ℤ
  | .start => 0
  | .nextPart b _ => {b}
  | .select b _ _ => {b}
  | .pushFull b _ => {b}
  | .popFree _ => 0
  | .remaining b _ => {b}
  | .pushRest b _ => {b}
  | .countRest b _ => {b}
  | .done b => {b}

/-- The read threads when they start, with the first partition on top of the stack. -/
def chReaders (partNum : ℕ) (pool : ℤ → List UInt8) :
    Crew env.readParallelism ChRead (List UInt8) ChWorld where
  queue := []
  mem := ⟨pool, ⟨List.range partNum, 0, []⟩⟩
  thread _ := .start
  popped := []

/-- The runs of the read threads. -/
abbrev ChRun (result : ℕ → List ChBlock) (partNum : ℕ) (pool : ℤ → List UInt8)
    (s : Crew env.readParallelism ChRead (List UInt8) ChWorld) : Prop :=
  Crew.Run ChRead.held (fun _ => chWriteToBp env result) (chReaders env partNum pool) s

/-! ### What the threads should do -/

/-- A buffer contains the rows, and a header that describes them: the one that the other readers
write. -/
structure Describes (block : List UInt8) (rows : List Row) : Prop where
  tuples : (headerOfBytes block).totalTuples = (restHeader env rows.length).totalTuples
  size : (headerOfBytes block).totalSize = (restHeader env rows.length).totalSize
  format : (headerOfBytes block).intermediateFormat
    = (restHeader env rows.length).intermediateFormat
  room : rows.length ≤ env.tuplesPerBuffer
  rows : cellRows pgText env rows.length (block.drop sizeofHeader) = rows

/-- The rows of all partitions. -/
def chRows (result : ℕ → List ChBlock) (parts : List ℕ) : List Row :=
  parts.flatMap fun part => (result part).flatMap ChBlock.rows

/-- **Every row is in one of the buffers that have been pushed**, and each buffer describes
itself. -/
def ChDelivers (result : ℕ → List ChBlock) (partNum : ℕ) : Prop :=
  ∀ pool s, ChRun env result partNum pool s →
    (∀ x ∈ s.popped, x.2.length = sizeofHeader + env.payloadSize) →
    (∀ t, ∃ b, s.thread t = .done b) →
      ∃ rss : List (List Row), List.Forall₂ (Describes env) s.mem.world.compBuffer rss ∧
        rss.flatten.Perm (chRows result (List.range partNum))

end Program

/-! ### Bytes other than zero -/

/-- The number of bytes other than zero. -/
def marks (bs : List UInt8) : ℕ := bs.countP (· ≠ 0)

/-- The bytes other than zero in the cells of some rows. -/
def rowMarks (rows : List Row) : ℕ := marks rows.flatten.flatten

theorem marks_append (bs cs : List UInt8) : marks (bs ++ cs) = marks bs + marks cs :=
  List.countP_append

theorem rowMarks_append (rows rows' : List Row) :
    rowMarks (rows ++ rows') = rowMarks rows + rowMarks rows' := by
  rw [rowMarks, List.flatten_append, List.flatten_append, marks_append]
  rfl

theorem rowMarks_perm {rows rows' : List Row} (h : rows.Perm rows') :
    rowMarks rows = rowMarks rows' := h.flatten.flatten.countP_eq _

/-- A word that is not zero has a byte that is not. -/
theorem ofLeBytes_eq_zero {bs : List UInt8} (h : marks bs = 0) : ofLeBytes bs = 0 := by
  induction bs with
  | nil => rfl
  | cons b bs ih =>
    rw [marks, List.countP_cons, Nat.add_eq_zero_iff] at h
    have hb : b = 0 := by simpa using h.2
    rw [ofLeBytes, ih h.1, hb]
    rfl

variable {env : RuntimeEnv}

/-- **The header uses up a byte**: a block that describes itself holds more than its rows. -/
theorem Describes.lt_marks {block : List UInt8} {rows : List Row}
    (h_width : ∀ a ∈ env.schema, a.width ≤ a.size) (h_format : env.iformat ≠ 0)
    (h : Describes env block rows) : rowMarks rows < marks block := by
  -- the header names the format, so it is not all zeros
  have h_header : 0 < marks (block.take sizeofHeader) := by
    by_contra h_zero
    have h_take : marks (block.take sizeofHeader) = 0 := by omega
    have h_slice : marks (slice block (8 * 3) 8) = 0 := by
      rw [← slice_take (by decide : 8 * 3 + 8 ≤ sizeofHeader)]
      refine Nat.eq_zero_of_le_zero (le_of_le_of_eq ?_ h_take)
      exact ((List.take_sublist _ _).trans (List.drop_sublist _ _)).countP_le
    have h_word : (headerOfBytes block).intermediateFormat = 0 := ofLeBytes_eq_zero h_slice
    exact h_format (h.format.symm.trans h_word)
  -- and the cells are apart, so the payload has every mark of the rows
  have h_cells : rowMarks rows ≤ marks (block.drop sizeofHeader) := by
    conv_lhs => rw [← h.rows]
    exact Layout.countP_rows_le (z := 0) (by decide) (columns_pairwise pgText env.schema 0)
      (holds_columns h_width) h.room _
  calc rowMarks rows < marks (block.take sizeofHeader) + marks (block.drop sizeofHeader) := by
        omega
    _ = marks block := by rw [← marks_append, List.take_append_drop]

variable (env) in
/-- A row that is written adds at most its own bytes. -/
theorem marks_writeTuple_le (k : ℕ) (schema : List SchemaAttribute) (row : List ChValue) (w : ℕ)
    (block : List UInt8) : marks (writeTuple env k schema row w block)
      ≤ marks block + marks (row.map ChValue.cell).flatten := by
  induction schema generalizing row w block with
  | nil => cases row <;> exact Nat.le_add_right _ _
  | cons a schema ih =>
    cases row with
    | nil => exact Nat.le_add_right _ _
    | cons v row =>
      rw [writeTuple, List.map_cons, List.flatten_cons, marks_append]
      split
      · have h_rest := ih row (w + a.size) (put block (if env.iformat = 1
          then k * env.tupleSize + w else w * env.bufferSize + k * a.size) v.cell)
        have h_put := countP_put_le (p := fun b : UInt8 => b ≠ 0) block (if env.iformat = 1
          then k * env.tupleSize + w else w * env.bufferSize + k * a.size) v.cell
        change marks (put _ _ _) ≤ marks block + marks v.cell at h_put
        dsimp only
        omega
      · have h_rest := ih row w block
        omega

/-! ### A run with empty buffers -/

section Empty

variable {result : ℕ → List ChBlock} {partNum : ℕ} {pool : ℤ → List UInt8}
  {s : Crew env.readParallelism ChRead (List UInt8) ChWorld} {t : Fin env.readParallelism} {k : ℕ}

/-- A buffer of the pool as it is created. -/
def emptyBlock (env : RuntimeEnv) : List UInt8 :=
  List.replicate (sizeofHeader + env.payloadSize) 0

theorem marks_emptyBlock (env : RuntimeEnv) : marks (emptyBlock env) = 0 := by
  rw [marks, emptyBlock, List.countP_replicate]
  rfl

/-- Every thread uses the buffer with its own number. -/
structure OneBuffer (s : Crew env.readParallelism ChRead (List UInt8) ChWorld) : Prop where
  queue : s.queue = []
  own : ∀ u, ∀ b ∈ (s.thread u).held, b = ((u : ℕ) : ℤ)
  counter : s.mem.world.totalReadBuffers = 0
  size : ∀ x ∈ s.popped, x.2.length = sizeofHeader + env.payloadSize

theorem OneBuffer.start : OneBuffer (chReaders env partNum pool) where
  queue := rfl
  own _ _ h := by simp [chReaders, ChRead.held] at h
  counter := rfl
  size _ h := by simp [chReaders] at h

theorem OneBuffer.own_update (h : OneBuffer s) {l : ChRead}
    (h_held : ∀ b ∈ l.held, b = ((t : ℕ) : ℤ)) (u : Fin env.readParallelism) :
    ∀ b ∈ (update s.thread t l u).held, b = ((u : ℕ) : ℤ) := by
  by_cases hu : u = t
  · subst hu
    rw [update_self]
    exact h_held
  · rw [update_of_ne hu]
    exact h.own u

/-- One thread goes on. -/
theorem OneBuffer.move (h : OneBuffer s) {m : Memory (List UInt8) ChWorld} {l : ChRead}
    (h_held : ∀ b ∈ l.held, b = ((t : ℕ) : ℤ)) (h_counter : m.world.totalReadBuffers = 0) :
    OneBuffer { s with mem := m, thread := update s.thread t l } where
  queue := h.queue
  own := h.own_update h_held
  counter := h_counter
  size := h.size

/-- A thread takes its buffer. -/
theorem OneBuffer.take (h : OneBuffer s) {l : ChRead} (h_held : ∀ b ∈ l.held, b = ((t : ℕ) : ℤ)) :
    OneBuffer { s with
      mem := s.mem.write (t : ℕ) (emptyBlock env)
      thread := update s.thread t l
      popped := s.popped ++ [(t, emptyBlock env)] } where
  queue := h.queue
  own := h.own_update h_held
  counter := h.counter
  size x hx := by
    rcases List.mem_append.mp hx with hx | hx
    · exact h.size x hx
    · rw [List.mem_singleton.mp hx]
      exact List.length_replicate ..

/-- A thread that names no buffer can take its own. -/
theorem OneBuffer.elsewhere (h : OneBuffer s) (h_held : (s.thread t).held = 0) :
    s.Elsewhere ChRead.held ((t : ℕ) : ℤ) := by
  refine ⟨by rw [h.queue]; exact List.not_mem_nil, fun u hu => ?_⟩
  have h_eq : t = u := Fin.ext (by exact_mod_cast h.own u _ hu)
  subst h_eq
  rw [h_held] at hu
  exact Multiset.notMem_zero _ hu

/-- The bytes other than zero in the buffers that have been pushed. -/
def pushedMarks (w : ChWorld) : ℕ := (w.compBuffer.map marks).sum

theorem pushedMarks_push (w : ChWorld) (block : List UInt8) :
    pushedMarks (w.push block) = pushedMarks w + marks block := by
  simp [pushedMarks, ChWorld.push]

/-- Thread `t` goes on from `s` to `s'` and writes the rows, which adds at most their bytes to its
buffer and the buffers that have been pushed. -/
structure Writes (result : ℕ → List ChBlock) (partNum : ℕ) (pool : ℤ → List UInt8)
    (t : Fin env.readParallelism) (rows : List Row)
    (s s' : Crew env.readParallelism ChRead (List UInt8) ChWorld) : Prop where
  run : ChRun env result partNum pool s'
  one : OneBuffer s'
  others : ∀ u, u ≠ t → s'.thread u = s.thread u
  bound : pushedMarks s'.mem.world + marks (s'.mem.pool (t : ℕ))
    ≤ pushedMarks s.mem.world + marks (s.mem.pool (t : ℕ)) + rowMarks rows

variable {s' s'' : Crew env.readParallelism ChRead (List UInt8) ChWorld}
  {rows rows' : List Row} {blocks : List ChBlock}

theorem Writes.trans (h : Writes result partNum pool t rows s s')
    (h' : Writes result partNum pool t rows' s' s'') :
    Writes result partNum pool t (rows ++ rows') s s'' where
  run := h'.run
  one := h'.one
  others u hu := (h'.others u hu).trans (h.others u hu)
  bound := by
    have h_first := h.bound
    have h_second := h'.bound
    rw [rowMarks_append]
    omega

variable (rows) in
/-- A step with the buffer in hand. -/
theorem Writes.work (h_run : ChRun env result partNum pool s) (h_one : OneBuffer s) {l j : ChRead}
    {bs : List ℤ} {f : Memory (List UInt8) ChWorld → Memory (List UInt8) ChWorld × ChRead}
    {m : Memory (List UInt8) ChWorld} (h_thread : s.thread t = l)
    (hop : chWriteToBp env result l = .work bs f) (hf : f s.mem = (m, j))
    (h_held : ∀ b ∈ j.held, b = ((t : ℕ) : ℤ)) (h_counter : m.world.totalReadBuffers = 0)
    (h_bound : pushedMarks m.world + marks (m.pool (t : ℕ))
      ≤ pushedMarks s.mem.world + marks (s.mem.pool (t : ℕ)) + rowMarks rows) :
    Writes result partNum pool t rows s { s with mem := m, thread := update s.thread t j } where
  run := h_run.work h_thread hop hf
  one := h_one.move h_held h_counter
  others _ hu := update_of_ne hu _ _
  bound := h_bound

/-- A full buffer is pushed, and the next one is empty. -/
theorem exists_pushed (h_run : ChRun env result partNum pool s) (h_one : OneBuffer s)
    (h_thread : s.thread t = .pushFull (t : ℕ) blocks) :
    ∃ s', Writes result partNum pool t [] s s' ∧ s'.thread t = .select (t : ℕ) 0 blocks ∧
      s'.mem.world.partStack = s.mem.world.partStack := by
  have h_pushed := h_run.work h_thread rfl rfl
  have h_one' : OneBuffer { s with
      mem := { s.mem with world := s.mem.world.push (s.mem.pool (t : ℕ)) }
      thread := update s.thread t (.popFree blocks) } :=
    h_one.move (by simp [ChRead.held]) h_one.counter
  have h_name : ((t : ℕ) : ℤ) ≠ marker := by
    rw [marker]
    omega
  have h_none : (update s.thread t (ChRead.popFree blocks) t).held = 0 := by
    rw [update_self]
    rfl
  have h_taken := h_pushed.take (update_self _ _ _) rfl h_one'.queue h_name
    (h_one'.elsewhere h_none) (emptyBlock env)
  refine ⟨_, ⟨h_taken, h_one'.take (by simp [ChRead.held]), fun u hu => ?_, ?_⟩,
    update_self _ _ _, rfl⟩
  · exact (update_of_ne hu _ _).trans (update_of_ne hu _ _)
  · rw [Memory.write_pool_self, Memory.write_world, pushedMarks_push, marks_emptyBlock]
    omega

/-- One row is written. -/
theorem exists_row {row : List ChValue} {block : ChBlock} (h_run : ChRun env result partNum pool s)
    (h_one : OneBuffer s) (h_thread : s.thread t = .select (t : ℕ) k ((row :: block) :: blocks)) :
    ∃ s' k', Writes result partNum pool t [row.map ChValue.cell] s s' ∧
      s'.thread t = .select (t : ℕ) k' (block :: blocks) ∧
      s'.mem.world.partStack = s.mem.world.partStack := by
  have h_marks := marks_writeTuple_le env k env.schema row 0 (s.mem.pool (t : ℕ))
  have h_row : rowMarks [row.map ChValue.cell] = marks (row.map ChValue.cell).flatten := by
    rw [rowMarks, List.flatten_singleton]
  by_cases hk : k + 1 = env.bufferSize
  · -- the buffer is full
    have h_full := Writes.work [row.map ChValue.cell] h_run h_one h_thread rfl
      (if_pos hk) (by simp [ChRead.held]) h_one.counter (by
        rw [Memory.write_pool_self, Memory.write_world, h_row]
        omega)
    obtain ⟨s', h_next, h_thread', h_stack⟩ :=
      exists_pushed h_full.run h_full.one (update_self _ _ _)
    exact ⟨s', 0, h_full.trans h_next, h_thread', h_stack⟩
  · have h_step := Writes.work [row.map ChValue.cell] h_run h_one h_thread rfl
      (if_neg hk) (by simp [ChRead.held]) h_one.counter (by
        rw [Memory.write_pool_self, Memory.write_world, h_row]
        omega)
    exact ⟨_, k + 1, h_step, update_self _ _ _, rfl⟩

/-- The rows of one block are written. -/
theorem exists_block {block : ChBlock} (h_run : ChRun env result partNum pool s)
    (h_one : OneBuffer s) (h_thread : s.thread t = .select (t : ℕ) k (block :: blocks)) :
    ∃ s' k', Writes result partNum pool t block.rows s s' ∧
      s'.thread t = .select (t : ℕ) k' blocks ∧
      s'.mem.world.partStack = s.mem.world.partStack := by
  induction block generalizing s k with
  | nil =>
    have h_step := Writes.work (ChBlock.rows []) h_run h_one h_thread rfl rfl
      (by simp [ChRead.held]) h_one.counter (Nat.le_add_right _ _)
    exact ⟨_, k, h_step, update_self _ _ _, rfl⟩
  | cons row block ih =>
    obtain ⟨s₁, k₁, h_row, h_thread₁, h_stack₁⟩ := exists_row h_run h_one h_thread
    obtain ⟨s₂, k₂, h_rest, h_thread₂, h_stack₂⟩ := ih h_row.run h_row.one h_thread₁
    exact ⟨s₂, k₂, h_row.trans h_rest, h_thread₂, h_stack₂.trans h_stack₁⟩

/-- The rows of a partition are written, and nothing is done about the remaining ones. -/
theorem exists_blocks (h_run : ChRun env result partNum pool s) (h_one : OneBuffer s)
    (h_thread : s.thread t = .select (t : ℕ) k blocks) :
    ∃ s' k', Writes result partNum pool t (blocks.flatMap ChBlock.rows) s s' ∧
      s'.thread t = .nextPart (t : ℕ) k' ∧ s'.mem.world.partStack = s.mem.world.partStack := by
  induction blocks generalizing s k with
  | nil =>
    have h_end := Writes.work [] h_run h_one h_thread rfl rfl (by simp [ChRead.held])
      h_one.counter (Nat.le_add_right _ _)
    have h_rest := Writes.work [] h_end.run h_end.one (update_self _ _ _) rfl
      (if_neg fun h => absurd h.1 (by rw [h_one.counter]; decide)) (by simp [ChRead.held])
      h_one.counter (Nat.le_add_right _ _)
    exact ⟨_, k, h_end.trans h_rest, update_self _ _ _, rfl⟩
  | cons block blocks ih =>
    obtain ⟨s₁, k₁, h_block, h_thread₁, h_stack₁⟩ := exists_block h_run h_one h_thread
    obtain ⟨s₂, k₂, h_rest, h_thread₂, h_stack₂⟩ := ih h_block.run h_block.one h_thread₁
    exact ⟨s₂, k₂, h_block.trans h_rest, h_thread₂, h_stack₂.trans h_stack₁⟩

/-- A thread reads all partitions that are left. -/
theorem exists_parts {parts : List ℕ} (h_run : ChRun env result partNum pool s)
    (h_one : OneBuffer s) (h_thread : s.thread t = .nextPart (t : ℕ) k)
    (h_parts : s.mem.world.partStack = parts) :
    ∃ s', Writes result partNum pool t (chRows result parts) s s' ∧
      s'.thread t = .done (t : ℕ) ∧ s'.mem.world.partStack = [] := by
  induction parts generalizing s k with
  | nil =>
    have h_end := Writes.work (chRows result []) (j := .done (t : ℕ)) (m := s.mem) h_run
      h_one h_thread rfl (by simp only [h_parts]) (by simp [ChRead.held]) h_one.counter
      (Nat.le_add_right _ _)
    exact ⟨_, h_end, update_self _ _ _, h_parts⟩
  | cons part parts ih =>
    have h_take := Writes.work [] (j := .select (t : ℕ) k (result part))
      (m := { s.mem with world := { s.mem.world with partStack := parts } }) h_run h_one h_thread
      rfl (by simp only [h_parts]) (by simp [ChRead.held]) h_one.counter (Nat.le_add_right _ _)
    -- the blocks of this partition, then the other partitions
    obtain ⟨s₁, k₁, h_blocks, h_thread₁, h_stack₁⟩ :=
      exists_blocks h_take.run h_take.one (update_self _ _ _)
    obtain ⟨s₂, h_rest, h_thread₂, h_stack₂⟩ := ih h_blocks.run h_blocks.one h_thread₁ h_stack₁
    exact ⟨s₂, (h_take.trans h_blocks).trans h_rest, h_thread₂, h_stack₂⟩

/-- **The threads read one after the other**, and push no more than there is. -/
theorem exists_threads {ts : List (Fin env.readParallelism)} (h_nodup : ts.Nodup)
    (h_run : ChRun env result partNum pool s) (h_one : OneBuffer s)
    (h_start : ∀ t ∈ ts, s.thread t = .start) :
    ∃ s', ChRun env result partNum pool s' ∧ OneBuffer s' ∧
      (∀ t ∈ ts, s'.thread t = .done (t : ℕ)) ∧ (∀ u ∉ ts, s'.thread u = s.thread u) ∧
      pushedMarks s'.mem.world
        ≤ pushedMarks s.mem.world + rowMarks (chRows result s.mem.world.partStack) := by
  induction ts generalizing s with
  | nil => exact ⟨s, h_run, h_one, by simp, fun _ _ => rfl, Nat.le_add_right _ _⟩
  | cons t ts ih =>
    obtain ⟨h_notMem, h_nodup⟩ := List.nodup_cons.mp h_nodup
    obtain ⟨h_first, h_start⟩ := List.forall_mem_cons.mp h_start
    have h_name : ((t : ℕ) : ℤ) ≠ marker := by
      rw [marker]
      omega
    have h_taken := h_run.take h_first rfl h_one.queue h_name
      (h_one.elsewhere (congrArg ChRead.held h_first)) (emptyBlock env)
    have h_one' := h_one.take (t := t) (l := .nextPart (t : ℕ) 0) (by simp [ChRead.held])
    obtain ⟨s₁, h_parts, h_done, h_stack⟩ := exists_parts h_taken h_one' (update_self _ _ _) rfl
    have h_others : ∀ u, u ≠ t → s₁.thread u = s.thread u := fun u hu =>
      (h_parts.others u hu).trans (update_of_ne hu _ _)
    obtain ⟨s₂, h_run₂, h_one₂, h_done₂, h_others₂, h_bound₂⟩ :=
      ih h_nodup h_parts.run h_parts.one fun u hu =>
        (h_others u fun h_eq => h_notMem (h_eq ▸ hu)).trans (h_start u hu)
    refine ⟨s₂, h_run₂, h_one₂, ?_, fun u hu => ?_, ?_⟩
    · exact List.forall_mem_cons.mpr ⟨(h_others₂ t h_notMem).trans h_done, h_done₂⟩
    · obtain ⟨h_ne, h_rest⟩ := not_or.mp (List.mem_cons.not.mp hu)
      exact (h_others₂ u h_rest).trans (h_others u h_ne)
    · have h_bound := h_parts.bound
      rw [Memory.write_pool_self, Memory.write_world, marks_emptyBlock] at h_bound
      rw [h_stack, show rowMarks (chRows result []) = 0 from rfl] at h_bound₂
      omega

end Empty

/-! ### When the rows are delivered -/

section Delivery

variable {result : ℕ → List ChBlock} {partNum : ℕ}

/-- **What is pushed holds less than the rows**, if it describes itself. -/
theorem length_add_rowMarks_le {blocks : List (List UInt8)} {rss : List (List Row)}
    (h_width : ∀ a ∈ env.schema, a.width ≤ a.size) (h_format : env.iformat ≠ 0)
    (h : List.Forall₂ (Describes env) blocks rss) :
    blocks.length + rowMarks rss.flatten ≤ (blocks.map marks).sum := by
  induction h with
  | nil => exact Nat.zero_le _
  | @cons block rows blocks rss h_first _ ih =>
    have h_lt := h_first.lt_marks h_width h_format
    rw [List.length_cons, List.flatten_cons, rowMarks_append, List.map_cons, List.sum_cons]
    omega

/-- **If there are rows, they are not delivered.** -/
theorem chRows_eq_nil_of_delivers (h_width : ∀ a ∈ env.schema, a.width ≤ a.size)
    (h_format : env.iformat ≠ 0) (h : ChDelivers env result partNum) :
    chRows result (List.range partNum) = [] := by
  -- a run in which every buffer was zero when it was popped
  obtain ⟨s, h_run, h_one, h_done, -, h_bound⟩ :=
    exists_threads (List.nodup_finRange env.readParallelism) (.start : ChRun env result partNum
      (fun _ => []) _) .start fun _ _ => rfl
  obtain ⟨rss, h_describes, h_perm⟩ :=
    h _ s h_run h_one.size fun t => ⟨_, h_done t (List.mem_finRange t)⟩
  have h_pushed := length_add_rowMarks_le h_width h_format h_describes
  have h_all : pushedMarks s.mem.world ≤ rowMarks (chRows result (List.range partNum)) :=
    h_bound.trans (Nat.zero_add _).le
  -- with a row in a buffer there would be more marks than were written
  rw [rowMarks_perm h_perm] at h_pushed
  have h_none : s.mem.world.compBuffer = [] := by
    rw [← List.length_eq_zero_iff]
    change _ ≤ pushedMarks s.mem.world at h_pushed
    omega
  rw [h_none, List.forall₂_nil_left_iff] at h_describes
  rw [h_describes] at h_perm
  exact h_perm.nil_eq.symm

/-- Nothing has been pushed, and there is nothing to push. -/
def ChRead.Quiet : ChRead → Prop
  | .start => True
  | .nextPart _ _ => True
  | .select _ _ blocks => ∀ block ∈ blocks, block = []
  | .remaining _ _ => True
  | .done _ => True
  | _ => False

/-- The invariant of a run without rows. -/
structure NoRows (partNum : ℕ) (s : Crew env.readParallelism ChRead (List UInt8) ChWorld) :
    Prop where
  quiet : ∀ t, (s.thread t).Quiet
  pushed : s.mem.world.compBuffer = []
  counter : s.mem.world.totalReadBuffers = 0
  parts : ∀ part ∈ s.mem.world.partStack, part < partNum

/-- One thread goes on. -/
theorem NoRows.move {s : Crew env.readParallelism ChRead (List UInt8) ChWorld}
    (h : NoRows partNum s) {t : Fin env.readParallelism} {l : ChRead} (h_quiet : l.Quiet)
    (u : Fin env.readParallelism) : (update s.thread t l u).Quiet := by
  by_cases hu : u = t
  · subst hu
    rwa [update_self]
  · rw [update_of_ne hu]
    exact h.quiet u

/-- **A run without rows pushes nothing.** -/
theorem NoRows.of_run {pool : ℤ → List UInt8}
    {s : Crew env.readParallelism ChRead (List UInt8) ChWorld}
    (h_none : ∀ part < partNum, ∀ block ∈ result part, block = [])
    (h_run : ChRun env result partNum pool s) : NoRows partNum s := by
  induction h_run with
  | start => exact ⟨fun _ => trivial, rfl, rfl, fun _ => List.mem_range.mp⟩
  | @step s s' _ turn h_exec ih =>
    -- what happens outside the threads gives them no rows
    cases turn with
    | feed v c =>
      rw [Crew.exec] at h_exec
      split at h_exec
      · cases h_exec
        exact ⟨ih.quiet, ih.pushed, ih.counter, ih.parts⟩
      · cases h_exec
    | feedMarker =>
      cases h_exec
      exact ⟨ih.quiet, ih.pushed, ih.counter, ih.parts⟩
    | outside v c =>
      rw [Crew.exec] at h_exec
      split at h_exec
      · cases h_exec
        exact ⟨ih.quiet, ih.pushed, ih.counter, ih.parts⟩
      · cases h_exec
    | thread t =>
      have h_quiet := ih.quiet t
      cases h_thread : s.thread t with
      | start =>
        simp only [Crew.exec, h_thread, chWriteToBp] at h_exec
        split at h_exec
        · cases h_exec
        · cases h_exec
          exact ⟨ih.move trivial, ih.pushed, ih.counter, ih.parts⟩
      -- the next partition is one of the result, so its blocks are empty
      | nextPart b k =>
        simp only [Crew.exec, h_thread, chWriteToBp] at h_exec
        cases h_exec
        cases h_stack : s.mem.world.partStack with
        | nil => exact ⟨ih.move trivial, ih.pushed, ih.counter, ih.parts⟩
        | cons part parts =>
          have h_parts := ih.parts
          rw [h_stack] at h_parts
          obtain ⟨h_part, h_parts⟩ := List.forall_mem_cons.mp h_parts
          exact ⟨ih.move (h_none part h_part), ih.pushed, ih.counter, h_parts⟩
      -- an empty block has no row to write
      | select b k blocks =>
        rw [h_thread] at h_quiet
        simp only [Crew.exec, h_thread, chWriteToBp] at h_exec
        cases h_exec
        cases blocks with
        | nil => exact ⟨ih.move trivial, ih.pushed, ih.counter, ih.parts⟩
        | cons block blocks =>
          obtain ⟨rfl, h_rest⟩ := List.forall_mem_cons.mp h_quiet
          exact ⟨ih.move h_rest, ih.pushed, ih.counter, ih.parts⟩
      -- no buffer was counted, so nothing is pushed here either
      | remaining b k =>
        simp only [Crew.exec, h_thread, chWriteToBp, ih.counter] at h_exec
        cases h_exec
        exact ⟨ih.move trivial, ih.pushed, ih.counter, ih.parts⟩
      | done b => simp [Crew.exec, h_thread, chWriteToBp] at h_exec
      | _ =>
        rw [h_thread] at h_quiet
        exact h_quiet.elim

/-- **The rows are delivered exactly if there are none.** -/
theorem chDelivers_iff (env : RuntimeEnv) (result : ℕ → List ChBlock) (partNum : ℕ)
    (h_width : ∀ a ∈ env.schema, a.width ≤ a.size) (h_format : env.iformat = 1 ∨ env.iformat = 2) :
    ChDelivers env result partNum ↔ ∀ part < partNum, ∀ block ∈ result part, block = [] := by
  constructor
  · intro h part h_part block h_block
    have h_rows := chRows_eq_nil_of_delivers h_width (by omega) h
    have h_empty := List.flatMap_eq_nil_iff.mp
      (List.flatMap_eq_nil_iff.mp h_rows part (List.mem_range.mpr h_part)) block h_block
    exact List.map_eq_nil_iff.mp h_empty
  · intro h_none pool s h_run _ _
    refine ⟨[], by rw [(NoRows.of_run h_none h_run).pushed]; exact .nil, ?_⟩
    have h_rows : chRows result (List.range partNum) = [] := by
      refine List.flatMap_eq_nil_iff.mpr fun part h_part => ?_
      refine List.flatMap_eq_nil_iff.mpr fun block h_block => ?_
      rw [h_none part (List.mem_range.mp h_part) block h_block]
      rfl
    rw [h_rows]
    exact .nil

end Delivery

/-! ### One row -/

/-- One read thread and one column of integers. -/
def chEnv : RuntimeEnv where
  compressionAlgorithm := .nocomp
  iformat := 1
  bufferSize := 64
  buffersInBufferpool := 64
  readParallelism := 1
  deserParallelism := 1
  compressionParallelism := 1
  networkParallelism := 1
  skipDeserializer := false
  schema := [⟨.int, 4⟩]

theorem chDelivers_noRows : ChDelivers chEnv (fun _ => [[]]) 1 :=
  (chDelivers_iff chEnv (fun _ => [[]]) 1 (by decide) (.inl rfl)).mpr (by simp)

/-- **A single row is lost.** -/
theorem not_chDelivers_oneRow : ¬ ChDelivers chEnv (fun _ => [[[.int32 7]]]) 1 := by
  intro h
  have h_rows : chRows (fun _ => [[[.int32 7]]]) (List.range 1) = [] :=
    chRows_eq_nil_of_delivers (by decide) (by decide) h
  exact absurd h_rows (by decide)

end Xdbc.Server
