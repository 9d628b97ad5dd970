import Xdbc.Client.Rows
import Xdbc.Client.Ownership
import Xdbc.Pipeline.Relay
import Xdbc.Pipeline.Regroup

/-!
# The text of a table

One iteration of `CsvSink::serialize` over a table in row or column format, interleaved with the
write threads that take what it pushes. They should find the text of the table (`WritesTable`),
however many output buffers it takes.

They do so exactly if it takes one (`writesTable_iff`). Behind a flush the reference `outBuffer`
still names the buffer that has been pushed, and the new buffer is copied over it before the write
thread need have read it. Without a flush the text arrives unless it is longer than the payload.
-/

namespace Xdbc.Client

open Bytes Pipeline

/-! ### What the write threads should find -/

section Property

variable (env : RuntimeEnv) (ext : External) (x : Buffer)

/-- The text of the first `k` rows of a table: the lines of their cells. -/
def tableText (k : ℕ) : List UInt8 :=
  (List.range k).flatMap fun i =>
    lineOf ext env.schema ((layout env).readRow (columns env.schema 0) i x.payload)

/-- What holds at any time of an iteration over a table: it has pushed distinct buffers, its next
operation writes none of them, and at its end the write threads find the text. -/
structure Written (es : List (Event Buffer)) (reads : List (ℕ × Buffer)) (l : Ser)
    (m : Memory Buffer Files) : Prop where
  distinct : (Event.sent 3 es).Nodup
  untouched : ∀ bs f, serialize env ext l = .work bs f → ∀ b ∈ Event.sent 3 es,
    (f m).1.pool b = m.pool b
  text : l = .popIn → ∀ contents, ReadAll 3 es reads contents →
    contents.flatMap Buffer.data = tableText env ext x x.header.totalTuples

/-- The iterations over the table `x` write its text, however they are interleaved with the write
threads. -/
def WritesTable : Prop :=
  ∀ m₀ es reads l m, Relay 4 Ser.held (serialize env ext) 3 .popIn m₀ es reads l m →
    Event.arrivals 2 es = [some x] → Takes 0 (Full env) es → Written env ext x es reads l m

/-- The text alone: whoever reads what is pushed in an iteration over the table finds its text. -/
def FindsText : Prop :=
  ∀ (m₀ m : Memory Buffer Files) es reads contents,
    Relay 4 Ser.held (serialize env ext) 3 .popIn m₀ es reads .popIn m →
      Event.arrivals 2 es = [some x] → Takes 0 (Full env) es → ReadAll 3 es reads contents →
        contents.flatMap Buffer.data = tableText env ext x x.header.totalTuples

/-- The text of the table takes one output buffer: there is no flush, and it ends inside the
payload. -/
structure OneBuffer : Prop where
  noFlush : ∀ i < x.header.totalTuples,
    (tableText env ext x i).length + maxTupleSize env ≤ env.bufferSizeInBytes
  room : (tableText env ext x x.header.totalTuples).length ≤ env.payloadSize

variable {env ext x}

theorem tableText_succ (k : ℕ) : tableText env ext x (k + 1) = tableText env ext x k
    ++ lineOf ext env.schema ((layout env).readRow (columns env.schema 0) k x.payload) := by
  rw [tableText, List.range_succ, List.flatMap_append, List.flatMap_singleton]
  rfl

/-- The line that the loop writes is the next line of the text. -/
theorem tableText_append_rowBytes (h_format : env.iformat = 1 ∨ env.iformat = 2)
    (cells : ℕ → ℕ → List UInt8) (k : ℕ) :
    tableText env ext x k ++ rowBytes env ext cells x.payload k = tableText env ext x (k + 1) := by
  rw [tableText_succ, rowBytes_eq_lineOf, rowCells, if_pos h_format]

theorem length_tableText_mono {i k : ℕ} (h : i ≤ k) :
    (tableText env ext x i).length ≤ (tableText env ext x k).length := by
  induction h with
  | refl => exact le_rfl
  | step _ ih =>
    rw [tableText_succ, List.length_append]
    exact ih.trans (Nat.le_add_right _ _)

end Property

/-! ### A text that takes one buffer -/

section One

variable (env : RuntimeEnv) (ext : External) (x : Buffer)

/-- The table `x` has arrived, nothing has been pushed, and so nothing read. -/
structure Idle (es : List (Event Buffer)) (reads : List (ℕ × Buffer)) : Prop where
  arrived : Event.arrivals 2 es = [some x]
  sent : Event.sent 3 es = []
  reads : reads = []

/-- The text has been pushed, unless it is empty, and it is what is read. -/
def Posted (es : List (Event Buffer)) (reads : List (ℕ × Buffer)) (p : ℤ → Buffer) : Prop :=
  Idle x es reads ∧ tableText env ext x x.header.totalTuples = [] ∨
    Event.arrivals 2 es = [some x] ∧ ∃ o, Event.sent 3 es = [o] ∧
      (Unread 3 es reads 0 o → (p o).data = tableText env ext x x.header.totalTuples) ∧
      ∀ i c, (i, c) ∈ reads → i = 0 ∧ c.data = tableText env ext x x.header.totalTuples

/-- The rows up to `i` stand in the output buffer. -/
structure SerVars.Copies (p : ℤ → Buffer) (d : SerVars) : Prop where
  input : p d.bufferId = x
  tuples : d.totalTuples = x.header.totalTuples
  bound : d.i ≤ d.totalTuples
  bind : d.outBuffer = d.serializedBufferId
  apart : d.bufferId ≠ d.serializedBufferId
  full : Full env (p d.serializedBufferId)
  total : d.totalSerializedBytes = (tableText env ext x d.i).length
  text : (p d.serializedBufferId).payload.take d.totalSerializedBytes = tableText env ext x d.i

/-- What holds at a program point of an iteration whose text takes one buffer. -/
def Ser.Tabulates (es : List (Event Buffer)) (reads : List (ℕ × Buffer)) (p : ℤ → Buffer) :
    Ser → Prop
  | .popIn => Event.arrivals 2 es = [] ∧ Event.sent 3 es = [] ∧ reads = [] ∨
    Posted env ext x es reads p
  | .inspect b => p b = x ∧ Idle x es reads
  | .popOut b n _ => p b = x ∧ n = x.header.totalTuples ∧ Idle x es reads
  | .row d => d.Copies env ext x p ∧ Idle x es reads
  | .restPush d => d.bufferId ≠ d.serializedBufferId ∧
    (p d.serializedBufferId).data = tableText env ext x x.header.totalTuples ∧ Idle x es reads
  | .forget _ _ => tableText env ext x x.header.totalTuples = [] ∧ Idle x es reads
  | .freeIn _ => Posted env ext x es reads p
  | _ => False

variable {env ext x} {es : List (Event Buffer)} {reads : List (ℕ × Buffer)} {p p' : ℤ → Buffer}

theorem Posted.arrived (h : Posted env ext x es reads p) : Event.arrivals 2 es = [some x] :=
  h.elim (fun h => h.1.arrived) And.left

theorem Posted.congr (h_flight : ∀ b, InFlight 3 es reads b → p' b = p b)
    (h : Posted env ext x es reads p) : Posted env ext x es reads p' := by
  rcases h with h | ⟨h_arrived, o, h_sent, h_text, h_reads⟩
  · exact .inl h
  · refine .inr ⟨h_arrived, o, h_sent, fun h_unread => ?_, h_reads⟩
    rw [h_flight o ⟨0, h_unread⟩]
    exact h_text h_unread

/-- The environment changes nothing that matters. -/
theorem Ser.Tabulates.congr {l : Ser} (h_own : ∀ b ∈ l.held, p' b = p b)
    (h_flight : ∀ b, InFlight 3 es reads b → p' b = p b)
    (h : l.Tabulates env ext x es reads p) : l.Tabulates env ext x es reads p' := by
  cases l with
  | popIn => exact h.imp_right (Posted.congr h_flight)
  | inspect b =>
    refine ⟨?_, h.2⟩
    rw [h_own b (by simp [held])]
    exact h.1
  | popOut b n cells =>
    refine ⟨?_, h.2⟩
    rw [h_own b (by simp [held])]
    exact h.1
  | row d =>
    obtain ⟨⟨h_in, h_tuples, h_bound, h_bind, h_apart, h_full, h_total, h_text⟩, h_idle⟩ := h
    -- nobody writes to the buffer in hand
    have h_out : p' d.serializedBufferId = p d.serializedBufferId := h_own _ (by simp [held])
    refine ⟨⟨?_, h_tuples, h_bound, h_bind, h_apart, ?_, h_total, ?_⟩, h_idle⟩
    · rw [h_own d.bufferId (by simp [held])]
      exact h_in
    · rw [h_out]
      exact h_full
    · rw [h_out]
      exact h_text
  | restPush d =>
    refine ⟨h.1, ?_, h.2.2⟩
    rw [h_own d.serializedBufferId (by simp [held])]
    exact h.2.1
  | forget b o => exact h
  | freeIn b => exact Posted.congr h_flight h
  | _ => exact h.elim

/-- A write thread finds the text. -/
theorem Posted.read {i : ℕ} {b : ℤ} (h_unread : Unread 3 es reads i b)
    (h : Posted env ext x es reads p) : Posted env ext x es (reads ++ [(i, p b)]) p := by
  rcases h with ⟨h_idle, -⟩ | ⟨h_arrived, o, h_sent, h_text, h_reads⟩
  · exact absurd ⟨i, h_unread⟩ (not_inFlight_of_sent_eq_nil h_idle.sent b)
  · have h_item := h_unread.1
    rw [h_sent] at h_item
    obtain ⟨rfl, rfl⟩ : i = 0 ∧ o = b := by
      cases i with
      | zero => exact ⟨rfl, Option.some.inj h_item⟩
      | succ i => cases h_item
    refine .inr ⟨h_arrived, o, h_sent, fun _ => h_text h_unread, fun j c hc => ?_⟩
    rcases List.mem_append.mp hc with hc | hc
    · exact h_reads j c hc
    · obtain ⟨rfl, rfl⟩ := Prod.mk.inj (List.mem_singleton.mp hc)
      exact ⟨rfl, h_text h_unread⟩

theorem Ser.Tabulates.read {l : Ser} {i : ℕ} {b : ℤ} (h_unread : Unread 3 es reads i b)
    (h : l.Tabulates env ext x es reads p) :
    l.Tabulates env ext x es (reads ++ [(i, p b)]) p := by
  have h_idle : ¬ Idle x es reads := fun h_idle =>
    not_inFlight_of_sent_eq_nil h_idle.sent b ⟨i, h_unread⟩
  cases l with
  | popIn =>
    rcases h with ⟨-, h_sent, -⟩ | h
    · exact absurd ⟨i, h_unread⟩ (not_inFlight_of_sent_eq_nil h_sent b)
    · exact .inr (h.read h_unread)
  | freeIn b' => exact Posted.read h_unread h
  | inspect b' => exact absurd h.2 h_idle
  | popOut b' n cells => exact absurd h.2.2 h_idle
  | row d => exact absurd h.2 h_idle
  | restPush d => exact absurd h.2.2 h_idle
  | forget b' o => exact absurd h.2 h_idle
  | _ => exact h.elim

theorem Idle.popped {q : ℕ} {v : ℤ} {c : Buffer} (hq : q ≠ 2) (h : Idle x es reads) :
    Idle x (es ++ [.popped q v c]) reads where
  arrived := (Event.arrivals_popped_of_ne hq).trans h.arrived
  sent := Event.sent_popped.trans h.sent
  reads := h.reads

theorem Idle.pushed_free {v : ℤ} {c : Buffer} (h : Idle x es reads) :
    Idle x (es ++ [.pushed ⟨0, v, c⟩]) reads where
  arrived := Event.arrivals_pushed.trans h.arrived
  sent := (Event.sent_pushed_of_ne (by decide)).trans h.sent
  reads := h.reads

/-- The output buffer is empty at first. -/
theorem copies_first {b o : ℤ} {n : ℕ} (h_in : p b = x) (h_tuples : n = x.header.totalTuples)
    (h_apart : b ≠ o) (h_full : Full env (p o)) (cells : ℕ → ℕ → List UInt8) :
    SerVars.Copies env ext x p ⟨b, o, o, n, cells, 0, 0⟩ where
  input := h_in
  tuples := h_tuples
  bound := Nat.zero_le n
  bind := rfl
  apart := h_apart
  full := h_full
  total := rfl
  text := rfl

/-- **A row is written behind the others.** -/
theorem SerVars.Copies.emitRow (h_format : env.iformat = 1 ∨ env.iformat = 2)
    (h_one : OneBuffer env ext x) {d : SerVars} {m : Memory Buffer Files}
    (h : d.Copies env ext x m.pool) (hi : d.i < d.totalTuples) (h_idle : Idle x es reads) :
    (d.emitRow env ext m).2.Tabulates env ext x es reads (d.emitRow env ext m).1.pool := by
  obtain ⟨h_in, h_tuples, h_bound, h_bind, h_apart, h_full, h_total, h_text⟩ := h
  have h_line : tableText env ext x d.i ++ rowBytes env ext d.cells x.payload d.i
      = tableText env ext x (d.i + 1) := tableText_append_rowBytes h_format d.cells d.i
  have h_length := congrArg List.length h_line
  rw [List.length_append] at h_length
  -- no row goes beyond the whole text, and so not beyond the payload
  have h_room : (tableText env ext x (d.i + 1)).length ≤ env.payloadSize :=
    (length_tableText_mono (h_tuples ▸ hi)).trans h_one.room
  refine ⟨⟨?_, h_tuples, hi, h_bind, h_apart, ?_, ?_, ?_⟩, h_idle⟩
  · simp only [SerVars.emitRow]
    rw [m.write_pool_of_ne (h_bind ▸ h_apart)]
    exact h_in
  · simp only [SerVars.emitRow]
    rw [← h_bind, Memory.write_pool_self, Full, length_put, h_bind]
    exact h_full
  · change d.totalSerializedBytes + (rowBytes env ext d.cells _ d.i).length = _
    rw [h_in, h_total, h_length]
  · simp only [SerVars.emitRow]
    rw [← h_bind, Memory.write_pool_self, h_in, h_bind, ← h_line, h_total]
    refine take_put_append (by rw [← h_total]; exact h_text) ?_
    rw [h_length, h_full]
    exact h_room

/-- **The output buffer is complete** behind the last row. -/
theorem SerVars.Copies.data {d : SerVars} {m : Memory Buffer Files}
    (h : d.Copies env ext x m.pool) (hi : ¬ d.i < d.totalTuples) :
    ((d.writeHeader m).pool d.serializedBufferId).data
      = tableText env ext x x.header.totalTuples := by
  have h_all : d.i = x.header.totalTuples := by
    have h_bound := h.bound
    have h_tuples := h.tuples
    omega
  rw [SerVars.writeHeader, h.bind, Memory.write_pool_self, Buffer.data, ← h_all]
  exact h.text

/-- The text is pushed. -/
theorem posted_pushed {o : ℤ} (h_idle : Idle x es reads)
    (h_text : (p o).data = tableText env ext x x.header.totalTuples) :
    Posted env ext x (es ++ [.pushed ⟨3, o, p o⟩]) reads p := by
  refine .inr ⟨Event.arrivals_pushed.trans h_idle.arrived, o, ?_, fun _ => h_text, fun i c hc => ?_⟩
  · rw [Event.sent_pushed, h_idle.sent, List.nil_append]
  · rw [h_idle.reads] at hc
    cases hc

/-- The input buffer is given back. -/
theorem Posted.pushed_free {v : ℤ} {c : Buffer} (h : Posted env ext x es reads p) :
    Posted env ext x (es ++ [.pushed ⟨0, v, c⟩]) reads p := by
  have h_sent : Event.sent 3 (es ++ [.pushed ⟨0, v, c⟩]) = Event.sent 3 es :=
    Event.sent_pushed_of_ne (by decide)
  rcases h with ⟨h_idle, h_nil⟩ | ⟨h_arrived, o, h_one, h_text, h_reads⟩
  · exact .inl ⟨h_idle.pushed_free, h_nil⟩
  · refine .inr ⟨Event.arrivals_pushed.trans h_arrived, o, h_sent.trans h_one,
      fun h_unread => h_text ?_, h_reads⟩
    rwa [Unread, h_sent] at h_unread

/-- The dispatch on the format. -/
theorem inspectHeader_table (h_format : env.iformat = 1 ∨ env.iformat = 2)
    (h_header : x.header.intermediateFormat = env.iformat) (b : ℤ) :
    inspectHeader env ext b x = .popOut b x.header.totalTuples fun _ _ => [] := by
  have h_not : env.iformat ≠ 3 := by omega
  simp only [inspectHeader, h_header, if_neg h_not]
  exact if_pos (h_format.imp_right .inl)

/-- **Every operation keeps to it**, as long as what arrives is the table. -/
theorem serialize_tabulates (h_skip : env.skipSerializer = false)
    (h_format : env.iformat = 1 ∨ env.iformat = 2)
    (h_header : x.header.intermediateFormat = env.iformat) (h_one : OneBuffer env ext x)
    {m₀ m : Memory Buffer Files} {l : Ser}
    (h : Relay 4 Ser.held (serialize env ext) 3 .popIn m₀ es reads l m)
    (h_arrivals : Event.arrivals 2 es <+: [some x]) (h_full : Takes 0 (Full env) es) :
    l.Tabulates env ext x es reads m.pool := by
  induction h with
  | start => exact .inl ⟨rfl, rfl, rfl⟩
  | others _ h_own h_flight ih => exact (ih h_arrivals h_full).congr h_own h_flight
  | read _ h_unread ih => exact (ih h_arrivals h_full).read h_unread
  | @pop es reads l m q k v _ hop h_free h_new ih =>
    have h_before : Event.arrivals 2 es <+: [some x] := by
      rw [Event.arrivals, List.filterMap_append] at h_arrivals
      exact (List.prefix_append _ _).trans h_arrivals
    have h_inv := ih h_before h_full.of_append
    cases l with
    | popIn =>
      cases hop
      have hv : v ≠ marker := by
        rintro rfl
        rw [Event.arrivals_popped_marker] at h_arrivals
        -- the marker would have to be among what may arrive
        have h_mem := h_arrivals.subset (List.mem_append_right _ (List.mem_singleton_self none))
        cases List.mem_singleton.mp h_mem
      rw [Event.arrivals_popped hv] at h_arrivals
      dsimp only
      rw [if_neg hv, if_neg (by rw [h_skip]; exact Bool.false_ne_true)]
      rcases h_inv with ⟨h_none, h_sent, h_reads⟩ | h_posted
      · -- the one table arrives
        rw [h_none, List.nil_append] at h_arrivals
        obtain ⟨h_in, -⟩ := List.cons_prefix_cons.mp h_arrivals
        have h_in : m.pool v = x := Option.some.inj h_in
        refine ⟨h_in, ⟨?_, Event.sent_popped.trans h_sent, h_reads⟩⟩
        rw [Event.arrivals_popped hv, h_none, h_in]
        rfl
      · -- a second input would be more than the one table
        have h_length := h_arrivals.length_le
        rw [h_posted.arrived] at h_length
        simp at h_length
    | popOut b n cells =>
      cases hop
      obtain ⟨h_in, h_tuples, h_idle⟩ := h_inv
      have h_apart : v ∉ ({b} : Multiset ℤ) := (h_new (by decide) (h_free rfl)).1
      -- `bufferWithSerializedData` is another buffer than the input
      rw [Multiset.mem_singleton] at h_apart
      exact ⟨copies_first h_in h_tuples (Ne.symm h_apart) (h_full.popped (h_free rfl)) cells,
        h_idle.popped (by decide)⟩
    | row d =>
      simp only [serialize] at hop
      repeat' split at hop
      all_goals cases hop
    | pqRow d => exact h_inv.elim
    | pqPopOut b n => exact h_inv.elim
    | pqFlushPop d => exact h_inv.elim
    | flushPop d => exact h_inv.elim
    | _ => cases hop
  | @push es reads l m q v l' _ hop ih =>
    -- without an open row nothing was written, so the buffer is the empty text of no row
    have h_inv := ih (by rwa [Event.arrivals_pushed] at h_arrivals)
      (by rwa [Takes, Event.inputs_pushed] at h_full)
    cases l with
    | restPush d =>
      cases hop
      exact posted_pushed h_inv.2.2 h_inv.2.1
    -- the buffer that stays out holds nothing: the table has no row
    | forget b o =>
      cases hop
      exact .inr (.inl ⟨h_inv.2.pushed_free, h_inv.1⟩)
    | freeIn b =>
      cases hop
      exact .inr (Posted.pushed_free h_inv)
    | row d =>
      simp only [serialize] at hop
      repeat' split at hop
      all_goals cases hop
    | skipPush b => exact h_inv.elim
    | flushPush d => exact h_inv.elim
    | pqFlushPush d => exact h_inv.elim
    | pqRestPush d => exact h_inv.elim
    | pqRow d => exact h_inv.elim
    | _ => cases hop
  | @work es reads l m bs f _ hop ih =>
    have h_inv := ih h_arrivals h_full
    cases l with
    | inspect b =>
      cases hop
      -- a header like the one the server writes passes `inspectHeader`
      obtain ⟨h_in, h_idle⟩ := h_inv
      dsimp only
      rw [h_in, inspectHeader_table h_format h_header]
      exact ⟨h_in, rfl, h_idle⟩
    | row d =>
      obtain ⟨h_copies, h_idle⟩ := h_inv
      simp only [serialize] at hop
      split at hop
      · next h_more =>
        -- the row fits beside the ones before it: no flush
        have h_fits := h_one.noFlush d.i (h_copies.tuples ▸ h_more)
        rw [← h_copies.total] at h_fits
        rw [if_neg (by omega)] at hop
        cases hop
        exact h_copies.emitRow h_format h_one h_more h_idle
      · next h_last =>
        -- the last row is written
        split at hop
        · cases hop
          exact ⟨h_copies.apart, h_copies.data h_last, h_idle⟩
        · next h_none =>
          -- the table had no row at all
          cases hop
          have h_all : d.i = x.header.totalTuples :=
            h_copies.tuples ▸ le_antisymm h_copies.bound (Nat.not_lt.mp h_last)
          refine ⟨List.eq_nil_of_length_eq_zero ?_, h_idle⟩
          rw [← h_all, ← h_copies.total]
          exact Nat.eq_zero_of_not_pos h_none
    | _ => first | exact h_inv.elim | cases hop

/-- What the write threads read of a text that has been posted. -/
theorem Posted.contents (h : Posted env ext x es reads p) {contents : List Buffer}
    (h_read : ReadAll 3 es reads contents) :
    contents.flatMap Buffer.data = tableText env ext x x.header.totalTuples := by
  obtain ⟨h_length, h_all⟩ := h_read
  rcases h with ⟨h_idle, h_nil⟩ | ⟨-, o, h_sent, -, h_reads⟩
  · rw [h_idle.sent, List.length_nil] at h_length
    rw [List.eq_nil_of_length_eq_zero h_length, h_nil]
    rfl
  · rw [h_sent, List.length_singleton] at h_length
    obtain ⟨c, rfl⟩ := List.length_eq_one_iff.mp h_length
    rw [List.flatMap_singleton]
    exact (h_reads 0 c (h_all 0 c rfl)).2

/-- At most one buffer is pushed, and behind it the thread only gives back its input. -/
theorem Ser.Tabulates.sent {l : Ser} (h : l.Tabulates env ext x es reads p) :
    Event.sent 3 es = [] ∨ (∃ o, Event.sent 3 es = [o]) ∧ (l = .popIn ∨ ∃ b, l = .freeIn b) := by
  have h_posted : Posted env ext x es reads p → Event.sent 3 es = [] ∨ ∃ o, Event.sent 3 es = [o] :=
    fun h => h.imp (fun h => h.1.sent) fun ⟨_, o, h_sent, _⟩ => ⟨o, h_sent⟩
  cases l with
  | popIn =>
    rcases h with ⟨-, h_sent, -⟩ | h
    · exact .inl h_sent
    · exact (h_posted h).imp_right fun h => ⟨h, .inl rfl⟩
  | freeIn b => exact (h_posted h).imp_right fun h => ⟨h, .inr ⟨b, rfl⟩⟩
  | inspect b => exact .inl h.2.sent
  | popOut b n cells => exact .inl h.2.2.sent
  | row d => exact .inl h.2.sent
  | restPush d => exact .inl h.2.2.sent
  | forget b o => exact .inl h.2.sent
  | _ => exact h.elim

/-- **A text that takes one buffer is written.** -/
theorem writesTable_of_oneBuffer (h_skip : env.skipSerializer = false)
    (h_format : env.iformat = 1 ∨ env.iformat = 2)
    (h_header : x.header.intermediateFormat = env.iformat) (h_one : OneBuffer env ext x) :
    WritesTable env ext x := by
  intro m₀ es reads l m h h_arrivals h_full
  have h_inv := serialize_tabulates h_skip h_format h_header h_one h
    (h_arrivals ▸ List.prefix_rfl) h_full
  refine ⟨?_, fun bs f hop b hb => ?_, ?_⟩
  · -- the thread has pushed nothing yet or one buffer
    rcases h_inv.sent with h_sent | ⟨⟨o, h_sent⟩, -⟩
    · rw [h_sent]
      exact List.nodup_nil
    · rw [h_sent]
      exact List.nodup_singleton o
  · -- after the push it only gives the input back
    rcases h_inv.sent with h_sent | ⟨-, rfl | ⟨b', rfl⟩⟩
    · rw [h_sent] at hb
      cases hb
    · cases hop
    · cases hop
  · rintro rfl contents h_read
    rcases h_inv with ⟨h_none, -⟩ | h_posted
    · rw [h_none] at h_arrivals
      cases h_arrivals
    · exact h_posted.contents h_read

end One

/-! ### A text that takes more -/

section More

variable (env : RuntimeEnv) (ext : External) (x : Buffer)

/-- Buffer 1 is the table, all others are empty. -/
def tableMemory : Memory Buffer Files where
  pool b := if b = 1 then x else emptyBuffer env
  world _ := []

/-- The thread has taken the table and an output buffer. -/
def tableEvents : List (Event Buffer) := [.popped 2 1 x, .popped 0 2 (emptyBuffer env)]

/-- The variables before row `k`. -/
def tableVars (k : ℕ) : SerVars :=
  ⟨1, 2, 2, x.header.totalTuples, fun _ _ => [], k, (tableText env ext x k).length⟩

variable {env ext x}

/-- A line is written where the estimate of it fits. -/
theorem serialize_row_emit {d : SerVars} (hi : d.i < d.totalTuples)
    (h_room : ¬ d.totalSerializedBytes + maxTupleSize env > env.bufferSizeInBytes) :
    serialize (σ := Files) env ext (.row d) = .work [d.bufferId, d.outBuffer] (d.emitRow env ext) :=
  (if_pos hi).trans (if_neg h_room)

/-- The buffer is flushed where it does not. -/
theorem serialize_row_flush {d : SerVars} (hi : d.i < d.totalTuples)
    (h_room : d.totalSerializedBytes + maxTupleSize env > env.bufferSizeInBytes) :
    serialize (σ := Files) env ext (.row d)
      = .work [d.outBuffer] fun m => (d.writeHeader m, .flushPush d) :=
  (if_pos hi).trans (if_pos h_room)

/-- What has been written is pushed behind the last row. -/
theorem serialize_row_rest {d : SerVars} (hi : ¬ d.i < d.totalTuples)
    (h_some : d.totalSerializedBytes > 0) :
    serialize (σ := Files) env ext (.row d)
      = .work [d.outBuffer] fun m => (d.writeHeader m, .restPush d) :=
  (if_neg hi).trans (if_pos h_some)

theorem full_emptyBuffer : Full env (emptyBuffer env) := List.length_replicate

theorem takes_tableEvents : Takes 0 (Full env) (tableEvents env x) := by
  intro c hc
  obtain rfl : c = emptyBuffer env := List.mem_singleton.mp hc
  exact full_emptyBuffer

/-- **A run up to row `k`**, if no row before it is preceded by a flush. -/
theorem exists_row (h_skip : env.skipSerializer = false)
    (h_format : env.iformat = 1 ∨ env.iformat = 2)
    (h_header : x.header.intermediateFormat = env.iformat) {k : ℕ}
    (hk : k ≤ x.header.totalTuples)
    (h_noFlush : ∀ i < k, (tableText env ext x i).length + maxTupleSize env ≤ env.bufferSizeInBytes) :
    ∃ m, Relay 4 Ser.held (serialize env ext) 3 .popIn (tableMemory env x) (tableEvents env x) []
        (.row (tableVars env ext x k)) m ∧ m.pool 1 = x ∧ Full env (m.pool 2) := by
  -- induction over the rows written so far
  induction k with
  | zero =>
    have h_start : Relay 4 Ser.held (serialize env ext) 3 .popIn (tableMemory env x) [] []
      .popIn (tableMemory env x) := .start
    have h_in := h_start.pop (v := 1) rfl (by decide) fun _ _ =>
      ⟨Multiset.notMem_zero 1, not_inFlight_of_sent_eq_nil rfl 1⟩
    rw [if_neg (by decide), if_neg (by rw [h_skip]; exact Bool.false_ne_true)] at h_in
    have h_inspected := h_in.work rfl
    -- the table is in buffer 1, and the text goes to buffer 2
    have h_table : (tableMemory env x).pool 1 = x := by simp [tableMemory]
    rw [h_table, inspectHeader_table h_format h_header] at h_inspected
    have h_out := h_inspected.pop (v := 2) rfl (by decide) fun _ _ =>
      ⟨by simp [Ser.held], not_inFlight_of_sent_eq_nil rfl 2⟩
    exact ⟨_, h_out, h_table, full_emptyBuffer⟩
  | succ k ih =>
    obtain ⟨m, h_run, h_in, h_full⟩ := ih (by omega) fun i hi => h_noFlush i (by omega)
    -- the next row fits
    have h_op : serialize env ext (.row (tableVars env ext x k))
        = .work [1, 2] ((tableVars env ext x k).emitRow env ext) :=
      serialize_row_emit hk (h_noFlush k (Nat.lt_succ_self k)).not_gt
    have h_length : (tableText env ext x k).length
        + (rowBytes env ext (fun _ _ => []) x.payload k).length
        = (tableText env ext x (k + 1)).length := by
      rw [← List.length_append, tableText_append_rowBytes h_format]
    have h_next := h_run.work h_op
    simp only [SerVars.emitRow, tableVars, h_in, h_length] at h_next
    refine ⟨_, h_next, ?_, ?_⟩
    · rw [m.write_pool_of_ne (by decide)]
      exact h_in
    · rw [Memory.write_pool_self, Full, length_put]
      exact h_full

theorem arrivals_tableEvents : Event.arrivals 2 (tableEvents env x) = [some x] := rfl

theorem readAll_tableEvents : ReadAll 3 (tableEvents env x) [] [] := ⟨rfl, fun _ _ h => by cases h⟩

/-- A line has at least the delimiters. -/
theorem rowBytes_ne_nil (h_schema : env.schema ≠ []) (cells : ℕ → ℕ → List UInt8)
    (payload : List UInt8) (i : ℕ) : rowBytes env ext cells payload i ≠ [] := by
  obtain ⟨a, schema, h⟩ := List.exists_cons_of_ne_nil h_schema
  rw [rowBytes, h, serializeRow]
  refine List.append_ne_nil_of_left_ne_nil ?_ _
  unfold serializeAttribute
  split <;> simp

section Flush

variable {n i total : ℕ} {cells : ℕ → ℕ → List UInt8} {o : ℤ} {m₀ m : Memory Buffer Files}
  {es : List (Event Buffer)} {reads : List (ℕ × Buffer)} {contents : List Buffer}

/-- **A flush.** The buffer in hand is pushed and read. The next one is empty, and stays so: the row
is written to the first one, to which the reference is bound. -/
theorem exists_flushed (h_schema : env.schema ≠ []) (hi : i < n)
    (h_flush : total + maxTupleSize env > env.bufferSizeInBytes)
    (h : Relay 4 Ser.held (serialize env ext) 3 .popIn m₀ es reads (.row ⟨1, 2, o, n, cells, i, total⟩)
      m) (h_full : Takes 0 (Full env) es) (h_all : ReadAll 3 es reads contents) :
    ∃ es' reads' m' total', Relay 4 Ser.held (serialize env ext) 3 .popIn m₀ es' reads'
        (.row ⟨1, 2, 3, n, cells, i + 1, total'⟩) m' ∧ 0 < total' ∧ (m'.pool 3).data = [] ∧
      Event.arrivals 2 es' = Event.arrivals 2 es ∧ Takes 0 (Full env) es' ∧
      ReadAll 3 es' reads' (contents ++
        [(SerVars.writeHeader ⟨1, 2, o, n, cells, i, total⟩ m).pool o]) := by
  set d : SerVars := ⟨1, 2, o, n, cells, i, total⟩
  obtain ⟨reads', h_pushed, h_all'⟩ :=
    (h.work (serialize_row_flush hi h_flush)).push_read (v := o) (t := .flushPop d) rfl h_all
  set m₃ := (d.writeHeader m).write 3 (emptyBuffer env)
  have h_own : ∀ b ∈ Ser.held (.flushPop d), m₃.pool b = (d.writeHeader m).pool b := fun b hb => by
    rw [Multiset.mem_singleton.mp hb]
    exact Memory.write_pool_of_ne _ (by decide : (1 : ℤ) ≠ 3) _
  -- buffer 2 is written to disk, and 3 takes its place
  have h_others := h_pushed.others h_own fun b hb => absurd hb (h_all'.not_inFlight b)
  have h_popped := h_others.pop (v := 3) rfl (by decide) fun _ _ =>
    ⟨fun h_held => absurd (Multiset.mem_singleton.mp h_held) (by decide : (3 : ℤ) ≠ 1),
      h_all'.not_inFlight 3⟩
  have h_emitted := (h_popped.work rfl).work rfl
  refine ⟨_, reads', _, _, h_emitted, ?_, ?_, ?_, ?_, h_all'.1.trans ?_, h_all'.2⟩
  · -- the new buffer has the row that did not fit
    exact (List.length_pos_of_ne_nil (rowBytes_ne_nil h_schema _ _ _)).trans_eq (Nat.zero_add _).symm
  · have h_three : ∀ (x y : Buffer), (((((d.writeHeader m).write 3 (emptyBuffer env)).write 2 x).write
        2 y).pool 3).data = [] := fun x y => by
      rw [Memory.write_pool_of_ne _ (by decide), Memory.write_pool_of_ne _ (by decide),
        Memory.write_pool_self]
      rfl
    exact h_three _ _
  · rw [Event.arrivals_popped_of_ne (by decide), Event.arrivals_pushed]
  · refine h_full.pushed.pop ?_
    rw [Memory.write_pool_self]
    exact full_emptyBuffer
  · rw [Event.sent_popped]

/-- The header is written to the buffer to which the reference is bound. -/
theorem writeHeader_pool_three {d : SerVars} (h : d.outBuffer = 2) (m : Memory Buffer Files) :
    (d.writeHeader m).pool 3 = m.pool 3 := m.write_pool_of_ne (by rw [h]; decide) _

/-- An empty buffer adds nothing to the text. -/
theorem flatMap_data_concat {b : Buffer} (h : b.data = []) :
    (contents ++ [b]).flatMap Buffer.data = contents.flatMap Buffer.data := by
  rw [List.flatMap_append, List.flatMap_singleton, h, List.append_nil]

/-- **A run to the end of an iteration**, with an empty buffer in hand: what is read of it is
empty. -/
theorem exists_end (h_schema : env.schema ≠ []) {k : ℕ} (hk : i + k = n) (h_total : 0 < total)
    (h : Relay 4 Ser.held (serialize env ext) 3 .popIn m₀ es reads (.row ⟨1, 2, 3, n, cells, i, total⟩)
      m) (h_empty : (m.pool 3).data = []) (h_full : Takes 0 (Full env) es)
    (h_all : ReadAll 3 es reads contents) :
    ∃ es' reads' m' contents', Relay 4 Ser.held (serialize env ext) 3 .popIn m₀ es' reads' .popIn m' ∧
      Event.arrivals 2 es' = Event.arrivals 2 es ∧ Takes 0 (Full env) es' ∧
      ReadAll 3 es' reads' contents' ∧
      contents'.flatMap Buffer.data = contents.flatMap Buffer.data := by
  induction k generalizing i total es reads m contents with
  | zero =>
    -- the rest is pushed and read
    obtain ⟨reads', h_pushed, h_all'⟩ := (h.work (serialize_row_rest (by dsimp only; omega)
      h_total)).push_read (v := 3) (t := .freeIn 1) rfl h_all
    refine ⟨_, reads', _, _, h_pushed.push rfl, ?_, h_full.pushed.pushed,
      ⟨h_all'.1.trans ?_, h_all'.2⟩, flatMap_data_concat ?_⟩
    · rw [Event.arrivals_pushed, Event.arrivals_pushed]
    · exact congrArg List.length (Event.sent_pushed_of_ne (by decide : 0 ≠ 3)).symm
    · dsimp only
      rw [writeHeader_pool_three rfl]
      exact h_empty
  | succ k ih =>
    have hi : i < n := by omega
    by_cases h_flush : total + maxTupleSize env > env.bufferSizeInBytes
    · obtain ⟨es', reads', m', total', h', h_total', h_empty', h_arrivals, h_full', h_all'⟩ :=
        exists_flushed h_schema hi h_flush h h_full h_all
      obtain ⟨es₂, reads₂, m₂, contents₂, h₂, h_arrivals₂, h_full₂, h_all₂, h_text₂⟩ :=
        ih (by omega) h_total' h' h_empty' h_full' h_all'
      refine ⟨es₂, reads₂, m₂, contents₂, h₂, h_arrivals₂.trans h_arrivals, h_full₂, h_all₂,
        h_text₂.trans (flatMap_data_concat ?_)⟩
      rw [writeHeader_pool_three rfl]
      exact h_empty
    · have h_next := h.work (serialize_row_emit hi h_flush)
      refine ih (show i + 1 + k = n by omega) ?_ h_next ?_ h_full h_all
      · exact Nat.add_pos_left h_total _
      · simp only [SerVars.emitRow]
        rw [m.write_pool_of_ne (by decide)]
        exact h_empty

end Flush

/-- **Behind a flush rows are lost**, if the write threads are quick. -/
theorem not_findsText_of_flush (h_skip : env.skipSerializer = false)
    (h_format : env.iformat = 1 ∨ env.iformat = 2)
    (h_header : x.header.intermediateFormat = env.iformat) {k : ℕ} (hk : k < x.header.totalTuples)
    (h_noFlush : ∀ i < k, (tableText env ext x i).length + maxTupleSize env ≤ env.bufferSizeInBytes)
    (h_flush : ¬ (tableText env ext x k).length + maxTupleSize env ≤ env.bufferSizeInBytes) :
    ¬ FindsText env ext x := by
  intro h_finds
  have h_schema : env.schema ≠ [] := fun h_nil => by
    have h_none : (tableText env ext x k).length = 0 := by
      simp [tableText, h_nil, lineOf]
    rw [h_none, maxTupleSize, h_nil] at h_flush
    exact h_flush (Nat.zero_le _)
  obtain ⟨m, h_row, -, -⟩ := exists_row h_skip h_format h_header hk.le h_noFlush
  obtain ⟨es, reads, m', total, h_next, h_total, h_empty, h_arrivals, h_full, h_all⟩ :=
    exists_flushed h_schema hk (Nat.lt_of_not_le h_flush) h_row takes_tableEvents readAll_tableEvents
  obtain ⟨es', reads', m₂, contents, h_end, h_arrivals', h_full', h_all', h_text⟩ :=
    exists_end h_schema (Nat.add_sub_of_le hk) h_total h_next h_empty h_full h_all
  -- all that is found is a part of the text in front of row `k`
  have h_found := h_finds _ _ _ _ _ h_end (h_arrivals'.trans h_arrivals) h_full' h_all'
  have h_length := congrArg List.length (h_text.symm.trans h_found)
  have h_part : (((SerVars.writeHeader (tableVars env ext x k) m).pool 2).data).length
      ≤ (tableText env ext x k).length := by
    rw [SerVars.writeHeader, show (tableVars env ext x k).outBuffer = 2 from rfl,
      Memory.write_pool_self]
    exact List.length_take_le _ _
  have h_lost : (tableText env ext x k).length < (tableText env ext x (k + 1)).length := by
    rw [← tableText_append_rowBytes h_format fun _ _ => [], List.length_append]
    exact Nat.lt_add_of_pos_right (List.length_pos_of_ne_nil (rowBytes_ne_nil h_schema _ _ _))
  have h_mono : (tableText env ext x (k + 1)).length
      ≤ (tableText env ext x x.header.totalTuples).length := length_tableText_mono hk
  rw [List.nil_append, List.flatMap_singleton] at h_length
  exact absurd h_length (h_part.trans_lt (h_lost.trans_le h_mono)).ne

/-- **A text that is too long** for the payload is cut off. -/
theorem not_findsText_of_long (h_skip : env.skipSerializer = false)
    (h_format : env.iformat = 1 ∨ env.iformat = 2)
    (h_header : x.header.intermediateFormat = env.iformat)
    (h_noFlush : ∀ i < x.header.totalTuples,
      (tableText env ext x i).length + maxTupleSize env ≤ env.bufferSizeInBytes)
    (h_long : ¬ (tableText env ext x x.header.totalTuples).length ≤ env.payloadSize) :
    ¬ FindsText env ext x := by
  intro h_finds
  obtain ⟨m, h_row, -, h_full⟩ := exists_row h_skip h_format h_header le_rfl h_noFlush
  set d := tableVars env ext x x.header.totalTuples
  have h_some : d.totalSerializedBytes > 0 := (Nat.zero_le _).trans_lt (Nat.lt_of_not_le h_long)
  obtain ⟨reads, h_pushed, h_all⟩ := (h_row.work (serialize_row_rest (Nat.lt_irrefl _)
    h_some)).push_read (v := 2) (t := .freeIn 1) rfl readAll_tableEvents
  have h_text := h_finds _ _ _ _ _ (h_pushed.push rfl) ?_ takes_tableEvents.pushed.pushed
    ⟨h_all.1.trans ?_, h_all.2⟩
  · -- the payload has no room for the text
    have h_data : ((d.writeHeader m).pool 2).data
        = (m.pool 2).payload.take d.totalSerializedBytes := by
      rw [SerVars.writeHeader, show d.outBuffer = 2 from rfl, Memory.write_pool_self]
      rfl
    have h_payload : (m.pool 2).payload.length = env.payloadSize := h_full
    have h_le := List.length_take_le' d.totalSerializedBytes (m.pool 2).payload
    rw [List.nil_append, List.flatMap_singleton, h_data] at h_text
    rw [h_text, h_payload] at h_le
    exact h_long h_le
  · rw [Event.arrivals_pushed, Event.arrivals_pushed, arrivals_tableEvents]
  · exact congrArg List.length (Event.sent_pushed_of_ne (by decide : 0 ≠ 3)).symm

/-- **A table whose text takes one buffer can be serialized to the end**, and its text be read. -/
theorem OneBuffer.exists_run (h_skip : env.skipSerializer = false)
    (h_format : env.iformat = 1 ∨ env.iformat = 2)
    (h_header : x.header.intermediateFormat = env.iformat) (h : OneBuffer env ext x) :
    ∃ es reads m contents, Relay 4 Ser.held (serialize env ext) 3 .popIn (tableMemory env x) es reads
        .popIn m ∧ Event.arrivals 2 es = [some x] ∧ Takes 0 (Full env) es ∧
      ReadAll 3 es reads contents := by
  obtain ⟨m, h_row, -, -⟩ := exists_row h_skip h_format h_header le_rfl h.noFlush
  set d := tableVars env ext x x.header.totalTuples
  by_cases h_some : d.totalSerializedBytes > 0
  · obtain ⟨reads, h_pushed, h_all⟩ := (h_row.work (serialize_row_rest (Nat.lt_irrefl _)
      h_some)).push_read (v := 2) (t := .freeIn 1) rfl readAll_tableEvents
    refine ⟨_, reads, _, _, h_pushed.push rfl, ?_, takes_tableEvents.pushed.pushed,
      h_all.1.trans ?_, h_all.2⟩
    · rw [Event.arrivals_pushed, Event.arrivals_pushed, arrivals_tableEvents]
    · exact congrArg List.length (Event.sent_pushed_of_ne (by decide : 0 ≠ 3)).symm
  · -- without rows the output buffer is forgotten
    have h_forget : serialize (σ := Files) env ext (.row d) = .work [] fun m => (m, .forget 1 2) :=
      (if_neg (Nat.lt_irrefl _)).trans (if_neg h_some)
    refine ⟨_, [], _, [], (h_row.work h_forget).push rfl, ?_, takes_tableEvents.pushed, rfl,
      fun _ _ h_none => by cases h_none⟩
    rw [Event.arrivals_pushed, arrivals_tableEvents]

/-- A text that is found takes one buffer. -/
theorem oneBuffer_of_findsText (h_skip : env.skipSerializer = false)
    (h_format : env.iformat = 1 ∨ env.iformat = 2)
    (h_header : x.header.intermediateFormat = env.iformat) (h : FindsText env ext x) :
    OneBuffer env ext x := by
  by_cases h_flush : ∃ k, k < x.header.totalTuples ∧
      ¬ (tableText env ext x k).length + maxTupleSize env ≤ env.bufferSizeInBytes
  · -- the first flush
    classical
    obtain ⟨hk, h_k⟩ := Nat.find_spec h_flush
    refine absurd h (not_findsText_of_flush h_skip h_format h_header hk (fun i hi => ?_) h_k)
    have h_min := Nat.find_min h_flush hi
    rw [not_and, not_not] at h_min
    exact h_min (hi.trans hk)
  · have h_noFlush : ∀ i < x.header.totalTuples,
        (tableText env ext x i).length + maxTupleSize env ≤ env.bufferSizeInBytes := fun i hi => by
      by_contra h_not
      exact h_flush ⟨i, hi, h_not⟩
    refine ⟨h_noFlush, ?_⟩
    by_contra h_long
    exact not_findsText_of_long h_skip h_format h_header h_noFlush h_long h

theorem WritesTable.findsText (h : WritesTable env ext x) : FindsText env ext x :=
  fun _ _ _ _ contents h_run h_arrivals h_full h_all =>
    (h _ _ _ _ _ h_run h_arrivals h_full).text rfl contents h_all

/-- **The text of a table is written exactly if it takes one buffer.** -/
theorem writesTable_iff (h_skip : env.skipSerializer = false)
    (h_format : env.iformat = 1 ∨ env.iformat = 2)
    (h_header : x.header.intermediateFormat = env.iformat) :
    WritesTable env ext x ↔ OneBuffer env ext x :=
  ⟨fun h => oneBuffer_of_findsText h_skip h_format h_header h.findsText,
    writesTable_of_oneBuffer h_skip h_format h_header⟩

/-- A table with three rows of an integer and a string. -/
def threeRows : Buffer :=
  ⟨{ totalTuples := 3, totalSize := 27, intermediateFormat := 1 },
    [7, 0, 0, 0, 97, 98, 0, 0, 0] ++ [0xff, 0xff, 0xff, 0xff, 99, 0, 0, 0, 0]
      ++ [0, 1, 0, 0, 0, 0, 0, 0, 0]⟩

theorem writesTable_threeRows :
    WritesTable { smallEnv with schema := [⟨.int, 4⟩, ⟨.string, 5⟩] } (zstdStream 0) threeRows :=
  (writesTable_iff rfl (.inl rfl) rfl).mpr ⟨by decide +kernel, by decide +kernel⟩

/-- As many rows as a buffer of 1 KiB holds, each with the least integer. -/
def leastIntegers : Buffer :=
  ⟨{ totalTuples := 256, totalSize := 1024, intermediateFormat := 1 },
    (List.replicate 256 [0, 0, 0, 0x80]).flatten⟩

/-- The 86th line does not fit the output buffer any more. -/
theorem not_writesTable_leastIntegers : ¬ WritesTable smallEnv (zstdStream 0) leastIntegers := by
  have h_last : (tableText smallEnv (zstdStream 0) leastIntegers 84).length + maxTupleSize smallEnv
      ≤ smallEnv.bufferSizeInBytes := by decide +kernel
  intro h
  refine not_findsText_of_flush (k := 85) rfl (.inl rfl) rfl (by decide) (fun i hi => ?_)
    (by decide +kernel) h.findsText
  exact (Nat.add_le_add_right (length_tableText_mono (Nat.le_of_lt_succ hi)) _).trans h_last

end More

/-! ### In the client -/

/-- **The serialization thread of a client makes such a run** with the write threads, if it is the
only one and has forgotten no buffer. -/
theorem exists_relay_of_reachable {env : RuntimeEnv} {ext : External}
    (h_one : env.serParallelism = 1) {s : State (machine env ext)}
    (h : Reachable (machine env ext) (leaks env) (initial env ext) s)
    (i : Fin (parallelism env 2)) :
    ∃ es reads, Relay 4 Ser.held (serialize env ext) 3 .popIn (initial env ext).mem es reads
      (s.thread ⟨2, i⟩).loc s.mem ∧ Afloat 3 es reads (s.queue 3) := by
  refine (custody env ext (leaks env) fun _ _ h => h).exists_relay ⟨2, i⟩ ?_ (by decide) h
    kept_initial (pool_nodup env)
  -- no other thread touches the buffers that are in hand or in flight
  rintro ⟨k, j⟩ h_other l -
  match k, j, l, h_other with
  | 0, j, l, _ => exact receive_careful ext j l
  | 1, j, l, _ => exact decompress_careful env ext l
  | 2, j, l, h_other =>
    have h_same : j = i := Fin.ext (by
      have hj := j.isLt
      have hi := i.isLt
      change _ < env.serParallelism at hj hi
      omega)
    exact absurd (h_same ▸ rfl) h_other
  | 3, j, l, _ => exact write_careful ext j l

end Xdbc.Client
