import Xdbc.Client.PqSink

/-!
# The rows of the Parquet files

What the Parquet sink should do is to store files with the rows it has received (`WritesRows`),
whatever the Parquet library does, if only its files are read back and fit into the region they are
written to.

It does so only if nothing arrives, or if the format is the row format and there are no rows. The
file starts at the beginning of the output buffer and what is stored starts behind the header, so a
file that is stored is a part of the file that was written, or it contains bytes the buffer held
before. The first is shorter than the shortest file (`lengthen`), and the second depends on the
bytes that were there before (`getElem?_fileBlock`).
-/

namespace Xdbc.Client

open Bytes Pipeline

/-! ### What the sink should do -/

section Property

variable (env : RuntimeEnv) (lib : Parquet) (arrow : List UInt8 → Option (List PqRow))

/-- The size of a buffer of the pool. -/
def blockSize : ℕ := sizeofHeader + env.payloadSize

/-- The cells of row `i`, in the row format and in the column format. -/
def cellsOf (payload : List UInt8) (i : ℕ) :
    List SchemaAttribute → (columnOffset columnStart : ℕ) → PqRow
  | [], _, _ => []
  | a :: schema, columnOffset, columnStart =>
    let off := if env.iformat = 2 then columnStart + i * a.width
      else i * totalRowSize env + columnOffset
    slice payload off a.width ::
      cellsOf payload i schema (columnOffset + a.width)
        (columnStart + env.tuplesPerBuffer * a.width)

/-- The rows of a decompressed buffer. -/
def inputRows (x : List UInt8) : List PqRow :=
  let buffer := bufferOf x
  if env.iformat = 3 then (arrow buffer.data).getD []
  else (List.range buffer.header.totalTuples).map fun i =>
    cellsOf env buffer.payload i env.schema 0 0

/-- The buffer holds complete rows. -/
def CompleteRows (x : List UInt8) : Prop :=
  x.length = blockSize env ∧
    if env.iformat = 3 then (arrow (bufferOf x).data).isSome = true
    else (bufferOf x).header.totalTuples ≤ env.tuplesPerBuffer

/-- The rows the Parquet library is given for a buffer, `none` if it is given none or an exception
is thrown. -/
def streamed (x : List UInt8) : Option (List PqRow) :=
  let buffer := bufferOf x
  if env.skipSerializer then none
  else if env.iformat = 3 then arrow buffer.data
  else if env.iformat = 2 then
    if streamThrows env buffer.header.totalTuples then none
    else some (streamedRows env buffer.header.totalTuples)
  else none

/-- The region the library is given. -/
def regionSize : ℕ := if env.iformat = 3 then arrowRegion env else env.bufferSizeInBytes

/-- The files fit into the region, and the region belongs to the buffer as far as they reach. -/
def Parquet.Fits (xs : List (List UInt8)) : Prop :=
  ∀ x ∈ xs, ∀ rows, streamed env arrow x = some rows →
    (lib.file rows).length ≤ regionSize env ∧ (lib.file rows).length ≤ blockSize env

/-- A run of `serialize` that begins with any pool. -/
def PqSerRun (es : List (Event (List UInt8))) (l : PqSer) : Prop :=
  Takes 0 (fun b => b.length = blockSize env) es ∧ ∃ m₀ m : Memory (List UInt8) Unit,
    Solo 4 PqSer.held (pqSerialize env lib arrow) (fun _ => False) .popIn m₀ es l m

/-- The buffers `xs` are delivered and then the end marker, as far as the run goes. -/
def Delivers (xs : List (List UInt8)) (es : List (Event (List UInt8))) : Prop :=
  ∃ rest, Event.inputs 2 es ++ rest = xs ∧ ((∃ c, .popped 2 marker c ∈ es) → rest = [])

/-- The thread has been ended in the middle of an iteration. -/
def PqSer.Aborted : PqSer → Prop
  | .returned _ _ => True
  | .thrown _ _ => True
  | _ => False

/-- The loop is left. -/
def PqSer.Ended : PqSer → Prop
  | .done _ => True
  | _ => False

/-- The files are well formed, and their rows are `rows` taken together. -/
def Parquet.Holds (files : List (List UInt8)) (rows : List PqRow) : Prop :=
  ∃ rss : List (List PqRow), files.map lib.read = rss.map some ∧ rss.flatten = rows

/-- What is stored for the buffers that have been pushed. -/
def storedFiles (es : List (Event (List UInt8))) : List (List UInt8) :=
  (Event.outputs 3 es).map fun block => (bufferOf block).data

/-- **The sink writes what it has received**, with every Parquet library whose files are read back
and fit. -/
def WritesRows (xs : List (List UInt8)) : Prop :=
  ∀ lib : Parquet, lib.Lawful → lib.Fits env arrow xs →
    ∀ es l, PqSerRun env lib arrow es l → Delivers xs es →
      ¬ l.Aborted ∧ (l.Ended → lib.Holds (storedFiles es) (xs.flatMap (inputRows env arrow)))

end Property

/-! ### The output buffer -/

section FileBlock

variable (env : RuntimeEnv) (lib : Parquet) (arrow : List UInt8 → Option (List PqRow))

/-- The output buffer for the input buffer `x`, if it held `block` before. -/
def fileBlock (x block : List UInt8) : List UInt8 :=
  if env.iformat = 3 then writeTable env lib ((arrow (bufferOf x).data).getD []) block
  else writeStream env lib (bufferOf x).header.totalTuples block

variable {env lib arrow} {x block : List UInt8} {rows : List PqRow}

/-- A byte behind the file is what it was. -/
theorem getElem?_fileBlock (h_rows : streamed env arrow x = some rows) {q : ℕ} (hq : 16 ≤ q)
    (h_file : (lib.file rows).length ≤ q) : (fileBlock env lib arrow x block)[q]? = block[q]? := by
  simp only [streamed] at h_rows
  unfold fileBlock
  split at h_rows
  · cases h_rows
  split at h_rows
  · next h_arrow =>
    rw [if_pos h_arrow, h_rows, writeTable, getElem?_put_of_le]
    rw [Option.getD_some, List.length_take]
    omega
  next h_arrow =>
  split at h_rows
  · split at h_rows
    · cases h_rows
    · cases h_rows
      rw [if_neg h_arrow, writeStream]
      set file := (lib.file (streamedRows env (bufferOf x).header.totalTuples)).take
        env.bufferSizeInBytes
      set early := lib.early (streamedRows env (bufferOf x).header.totalTuples)
      have h_length : file.length ≤ q := by
        rw [List.length_take]
        omega
      have h_first : (file.take early).length ≤ q := by
        rw [List.length_take]
        omega
      -- the file comes in two parts, with the size in the header between them
      have h_rest : (put (put (put block 0 (file.take early)) 8 (leBytes 8 env.bufferSizeInBytes))
          early (file.drop early))[q]?
          = (put (put block 0 (file.take early)) 8 (leBytes 8 env.bufferSizeInBytes))[q]? := by
        rcases Nat.le_total file.length early with h_all | h_part
        · rw [List.drop_eq_nil_of_le h_all, put_nil]
        · rw [getElem?_put_of_le]
          rw [List.length_drop]
          omega
      rw [h_rest, getElem?_put_of_le (by rw [length_leBytes]; omega),
        getElem?_put_of_le (by rwa [Nat.zero_add])]
  · cases h_rows

end FileBlock

/-! ### Runs -/

section Runs

variable {env : RuntimeEnv} {lib : Parquet} {arrow : List UInt8 → Option (List PqRow)}
  {es : List (Event (List UInt8))} {m₀ m : Memory (List UInt8) Unit} {x block : List UInt8}

variable (lib arrow) in
/-- What the thread does at the beginning of an iteration, when it converts. -/
theorem pqSerialize_popIn (h_skip : env.skipSerializer = false)
    (h_format : env.iformat = 3 ∨ env.iformat = 2) : ∃ k, pqSerialize (σ := Unit) env lib arrow
      .popIn = .pop 2 k ∧ ∀ v, v ≠ marker → k v = .popOut v := by
  rcases h_format with h_arrow | h_column
  · refine ⟨.popOut, ?_, fun _ _ => rfl⟩
    simp [pqSerialize, h_skip, h_arrow]
  · refine ⟨fun b => if b = marker then .done none else .popOut b, ?_, fun v hv => if_neg hv⟩
    simp [pqSerialize, h_skip, h_column]

variable (lib) in
/-- A buffer whose rows are streamed is answered by a file. -/
theorem pqSerialize_convert (h_rows : (streamed env arrow x).isSome) {b o : ℤ}
    (h_pool : m.pool b = x) : ∃ f, pqSerialize env lib arrow (.convert b o) = .work [b, o] f ∧
      f m = (m.write o (fileBlock env lib arrow x (m.pool o)), .pushOut b o) := by
  refine ⟨_, rfl, ?_⟩
  simp only [streamed] at h_rows
  rw [h_pool]
  split at h_rows
  · cases h_rows
  split at h_rows
  · next h_arrow =>
    obtain ⟨rows, h_rows⟩ := Option.isSome_iff_exists.mp h_rows
    simp [fileBlock, h_arrow, h_rows]
  next h_arrow =>
  split at h_rows
  · split at h_rows
    · cases h_rows
    · next h_stream => simp [fileBlock, h_arrow, h_stream]
  · cases h_rows

/-- The state of a run in front of an iteration: what has been delivered, and what has been pushed
in return. -/
structure Ready (env : RuntimeEnv) (lib : Parquet) (arrow : List UInt8 → Option (List PqRow))
    (m₀ : Memory (List UInt8) Unit) (xs ys : List (List UInt8)) (es : List (Event (List UInt8)))
    (m : Memory (List UInt8) Unit) : Prop where
  solo : Solo 4 PqSer.held (pqSerialize env lib arrow) (fun _ => False) .popIn m₀ es .popIn m
  takes : Takes 0 (fun b => b.length = blockSize env) es
  inputs : Event.inputs 2 es = xs
  outputs : Event.outputs 3 es = ys
  noMarker : ∀ c, .popped 2 marker c ∉ es

/-- The memory with the contents of the first two buffers. -/
def twoBlocks (m : Memory (List UInt8) Unit) (x block : List UInt8) : Memory (List UInt8) Unit :=
  { m with pool := fun b => if b = 1 then x else if b = 2 then block else m.pool b }

variable {xs ys : List (List UInt8)}

/-- One iteration. -/
theorem Ready.iteration (h : Ready env lib arrow m₀ xs ys es m)
    (h_skip : env.skipSerializer = false) (h_format : env.iformat = 3 ∨ env.iformat = 2)
    (h_rows : (streamed env arrow x).isSome)
    (h_length : block.length = blockSize env) : ∃ es' m', Ready env lib arrow m₀ (xs ++ [x])
      (ys ++ [fileBlock env lib arrow x block]) es' m' := by
  obtain ⟨k, h_pop, h_next⟩ := pqSerialize_popIn lib arrow h_skip h_format
  obtain ⟨f, h_work, h_file⟩ := pqSerialize_convert lib (m := twoBlocks m x block) (o := 2) h_rows
    (b := 1) rfl
  -- the buffer is put into 1 and an old one into 2
  have h_set : Solo 4 PqSer.held (pqSerialize env lib arrow) (fun _ => False) .popIn m₀ es .popIn
      (twoBlocks m x block) := h.solo.others (by simp [PqSer.held])
  -- then the thread pops both, converts and pushes both
  have h_in := h_set.pop (v := 1) h_pop (by simp) (by simp [PqSer.held]) id
  rw [h_next 1 (by decide)] at h_in
  have h_out := h_in.pop (v := 2) rfl (by simp [marker]) (by simp [PqSer.held, marker]) id
  rw [if_neg (by decide)] at h_out
  have h_written := h_out.work h_work id
  rw [h_file] at h_written
  refine ⟨_, _, (h_written.push rfl id).push rfl id, ?_, ?_, ?_, ?_⟩
  · exact (((h.takes.pop_of_ne (by decide)).pop h_length).pushed).pushed
  · rw [Event.inputs_pushed, Event.inputs_pushed, Event.inputs_popped_of_ne (by decide),
      Event.inputs_popped (by decide), h.inputs]
    rfl
  · rw [Event.outputs_pushed_of_ne (by decide), Event.outputs_pushed, Event.outputs_popped,
      Event.outputs_popped, h.outputs, Memory.write_pool_self]
    rfl
  · intro c hc
    refine h.noMarker c ?_
    simpa [marker] using hc

variable (lib arrow) in
/-- One buffer after the other is answered by its file. -/
theorem exists_ready (m₀ : Memory (List UInt8) Unit) (h_skip : env.skipSerializer = false)
    (h_format : env.iformat = 3 ∨ env.iformat = 2) (ps : List (List UInt8 × List UInt8))
    (h_rows : ∀ p ∈ ps, (streamed env arrow p.1).isSome)
    (h_length : ∀ p ∈ ps, p.2.length = blockSize env) : ∃ es m, Ready env lib arrow m₀
      (ps.map Prod.fst) (ps.map fun p => fileBlock env lib arrow p.1 p.2) es m := by
  induction ps using List.reverseRecOn with
  | nil => exact ⟨[], m₀, .start, by simp [Takes], rfl, rfl, by simp⟩
  | append_singleton ps p ih =>
    obtain ⟨es, m, h_ready⟩ := ih (fun q hq => h_rows q (List.mem_append_left _ hq)) fun q hq =>
      h_length q (List.mem_append_left _ hq)
    have hp : p ∈ ps ++ [p] := List.mem_append_right _ List.mem_cons_self
    rw [List.map_append, List.map_append]
    exact h_ready.iteration h_skip h_format (h_rows p hp) (h_length p hp)

variable (lib arrow) in
/-- With `skip_serializer` every buffer is handed on. -/
theorem exists_ready_skip (m₀ : Memory (List UInt8) Unit) (h_skip : env.skipSerializer = true)
    (xs : List (List UInt8)) : ∃ es m, Ready env lib arrow m₀ xs xs es m := by
  induction xs using List.reverseRecOn with
  | nil => exact ⟨[], m₀, .start, by simp [Takes], rfl, rfl, by simp⟩
  | append_singleton xs x ih =>
    obtain ⟨es, m, h⟩ := ih
    have h_pop : pqSerialize (σ := Unit) env lib arrow .popIn
        = .pop 2 fun b => if b = marker then .done none else .skipPush b := if_pos h_skip
    have h_set : Solo 4 PqSer.held (pqSerialize env lib arrow) (fun _ => False) .popIn m₀ es .popIn
        (twoBlocks m x x) := h.solo.others (by simp [PqSer.held])
    have h_in := h_set.pop (v := 1) h_pop (by simp) (by simp [PqSer.held]) id
    rw [if_neg (by decide)] at h_in
    refine ⟨_, _, h_in.push rfl id, (h.takes.pop_of_ne (by decide)).pushed, ?_, ?_, ?_⟩
    · rw [Event.inputs_pushed, Event.inputs_popped (by decide), h.inputs]
      rfl
    · rw [Event.outputs_pushed, Event.outputs_popped, h.outputs]
      rfl
    · intro c hc
      refine h.noMarker c ?_
      simpa [marker] using hc

/-- The loop can be left. -/
theorem Ready.ends (h : Ready env lib arrow m₀ xs ys es m) : ∃ es' l, PqSerRun env lib arrow es' l ∧
    l.Ended ∧ Event.inputs 2 es' = xs ∧ Event.outputs 3 es' = ys := by
  have h_stop : ∀ {k}, pqSerialize (σ := Unit) env lib arrow .popIn = .pop 2 k →
      k marker = .done none → ∃ es' l, PqSerRun env lib arrow es' l ∧
        l.Ended ∧ Event.inputs 2 es' = xs ∧ Event.outputs 3 es' = ys := by
    intro k h_pop h_next
    have h_end := h.solo.pop (v := marker) h_pop (by simp) (fun _ h_new => absurd rfl h_new) id
    rw [h_next] at h_end
    refine ⟨_, _, ⟨h.takes.pop_of_ne (by decide), m₀, m, h_end⟩, trivial, ?_, ?_⟩
    · rw [Event.inputs_popped_marker, h.inputs]
    · rw [Event.outputs_popped, h.outputs]
  cases h_skip : env.skipSerializer with
  | true => exact h_stop (if_pos h_skip) (if_pos rfl)
  | false =>
    by_cases h_arrow : env.iformat = 3
    · -- an output buffer is popped before the end marker is recognised
      have h_op : pqSerialize (σ := Unit) env lib arrow .popIn = .pop 2 .popOut := by
        simp [pqSerialize, h_skip, h_arrow]
      have h_marker := h.solo.pop (v := marker) h_op (by simp) (fun _ h_new => absurd rfl h_new) id
      set m' := twoBlocks m [] (List.replicate (blockSize env) 0)
      have h_set : Solo 4 PqSer.held (pqSerialize env lib arrow) (fun _ => False) .popIn m₀ _
          (.popOut marker) m' := h_marker.others (by simp [PqSer.held_popOut_marker])
      have h_out := h_set.pop (v := 2) rfl (by simp [marker]) (by simp [PqSer.held_popOut_marker]) id
      rw [if_pos rfl] at h_out
      refine ⟨_, _, ⟨?_, m₀, _, h_out⟩, trivial, ?_, ?_⟩
      · exact (h.takes.pop_of_ne (by decide)).pop (List.length_replicate ..)
      · rw [Event.inputs_popped_of_ne (by decide), Event.inputs_popped_marker, h.inputs]
      · rw [Event.outputs_popped, Event.outputs_popped, h.outputs]
    · by_cases h_column : env.iformat = 2
      · refine h_stop (k := fun b => if b = marker then .done none else .popOut b) ?_ (if_pos rfl)
        simp [pqSerialize, h_skip, h_column]
      · have h_op : pqSerialize (σ := Unit) env lib arrow .popIn
            = .work [] fun m => (m, .done none) := by
          simp [pqSerialize, h_skip, h_arrow, h_column]
        exact ⟨es, _, ⟨h.takes, m₀, m, h.solo.work h_op id⟩, trivial, h.inputs, h.outputs⟩

end Runs

/-! ### Why the files are not what they should be -/

section Fails

variable {env : RuntimeEnv} {lib : Parquet} {arrow : List UInt8 → Option (List PqRow)}
  {xs : List (List UInt8)}

/-- If one file is replaced and the rows stay the same, the two files have the same rows. -/
theorem Parquet.Holds.same_rows {as bs : List (List UInt8)} {o o' : List UInt8} {rows : List PqRow}
    (h : lib.Holds (as ++ o :: bs) rows) (h' : lib.Holds (as ++ o' :: bs) rows) :
    ∃ r, lib.read o = some r ∧ lib.read o' = some r := by
  obtain ⟨rss, h_read, h_rows⟩ := h
  obtain ⟨rss', h_read', h_rows'⟩ := h'
  rw [List.map_append, List.map_cons] at h_read h_read'
  obtain ⟨a, rb, rfl, h_as, h_rb⟩ := List.map_eq_append_iff.mp h_read.symm
  obtain ⟨a', rb', rfl, h_as', h_rb'⟩ := List.map_eq_append_iff.mp h_read'.symm
  obtain ⟨r, b, rfl, h_o, h_bs⟩ := List.map_eq_cons_iff.mp h_rb
  obtain ⟨r', b', rfl, h_o', h_bs'⟩ := List.map_eq_cons_iff.mp h_rb'
  have h_some : Function.Injective (List.map (some : List PqRow → Option (List PqRow))) :=
    List.map_injective_iff.mpr (Option.some_injective _)
  obtain rfl : a = a' := h_some (h_as.trans h_as'.symm)
  obtain rfl : b = b' := h_some (h_bs.trans h_bs'.symm)
  rw [← h_rows', List.flatten_append, List.flatten_append, List.flatten_cons,
    List.flatten_cons] at h_rows
  obtain rfl : r = r' := List.append_cancel_right (List.append_cancel_left h_rows)
  exact ⟨r, h_o.symm, h_o'.symm⟩

/-- The library that accepts its own files only, and whose files are long where `keep` does not
hold. -/
noncomputable def Parquet.strict (lib : Parquet) (keep : List PqRow → Prop) (n : ℕ) : Parquet where
  toCodec := Codec.ofInjective (Codec.lengthen lib.file keep n)
  early := lib.early

/-- With `skip_serializer` a buffer is stored as it is, and it is shorter than any file. -/
theorem not_writesRows_of_skip (h_skip : env.skipSerializer = true) (h_lawful : lib.Lawful)
    (h_ne : xs ≠ []) : ¬ WritesRows env arrow xs := by
  obtain ⟨x, xs, rfl⟩ := List.exists_cons_of_ne_nil h_ne
  intro h_writes
  -- a library whose files are all longer than what arrives
  set long := lib.strict (fun _ => False) x.length
  have h_long : long.Lawful := h_lawful.lengthen fun _ h => h.elim
  have h_fits : long.Fits env arrow (x :: xs) := fun y _ rows h_rows => by
    rw [streamed, if_pos h_skip] at h_rows
    cases h_rows
  obtain ⟨es, m, h_ready⟩ := exists_ready_skip long arrow
    ⟨fun _ => [], ()⟩ h_skip (x :: xs)
  obtain ⟨es, l, h_run, h_ended, h_in, h_out⟩ := h_ready.ends
  obtain ⟨rss, h_read, -⟩ := (h_writes long h_long h_fits es l h_run
    ⟨[], by rw [h_in, List.append_nil], fun _ => rfl⟩).2 h_ended
  rw [storedFiles, h_out, List.map_cons, List.map_cons] at h_read
  obtain ⟨r, rss, rfl, h_r, -⟩ := List.map_eq_cons_iff.mp h_read.symm
  -- the stored bytes would have to be a file of it
  have h_file := Codec.file_of_read_ofInjective h_r.symm
  have h_lt : x.length < (Codec.lengthen lib.file (fun _ => False) x.length r).length :=
    Codec.lt_length_lengthen lib.file x.length id
  rw [h_file] at h_lt
  have h_le : (bufferOf x).data.length ≤ x.length := by
    rw [Buffer.data, bufferOf, List.length_take, List.length_drop]
    omega
  omega

/-- The bytes that are stored, in terms of the block. -/
theorem getElem?_data {block : List UInt8} {i : ℕ} (hi : i < (bufferOf block).data.length) :
    (bufferOf block).data[i]? = block[sizeofHeader + i]? := by
  rw [Buffer.data, List.length_take] at hi
  rw [Buffer.data, List.getElem?_take, if_pos (by omega), bufferOf, List.getElem?_drop]

/-- What is stored for a buffer is a file with the same rows whatever the output buffer held
before. -/
theorem WritesRows.same_rows (h : WritesRows env arrow xs) (h_lawful : lib.Lawful)
    (h_fits : lib.Fits env arrow xs) (h_skip : env.skipSerializer = false)
    (h_format : env.iformat = 3 ∨ env.iformat = 2)
    (h_rows : ∀ x ∈ xs, (streamed env arrow x).isSome) {x : List UInt8} (hx : x ∈ xs)
    {c c' : List UInt8} (hc : c.length = blockSize env)
    (hc' : c'.length = blockSize env) :
    ∃ r, lib.read (bufferOf (fileBlock env lib arrow x c)).data = some r ∧
      lib.read (bufferOf (fileBlock env lib arrow x c')).data = some r := by
  obtain ⟨pre, post, rfl⟩ := List.append_of_mem hx
  -- all other output buffers hold zeros
  set zeros := List.replicate (blockSize env) (0 : UInt8)
  set stored := fun p : List UInt8 × List UInt8 => (bufferOf (fileBlock env lib arrow p.1 p.2)).data
  have h_holds : ∀ c : List UInt8, c.length = blockSize env →
      lib.Holds (pre.map (fun y => stored (y, zeros)) ++ stored (x, c) ::
        post.map (fun y => stored (y, zeros)))
          ((pre ++ x :: post).flatMap (inputRows env arrow)) := by
    intro c hc
    set ps := pre.map (fun y => (y, zeros)) ++ (x, c) :: post.map fun y => (y, zeros)
    have h_first : ps.map Prod.fst = pre ++ x :: post := by
      simp [ps, Function.comp_def]
    have h_length : ∀ p ∈ ps, p.2.length = blockSize env := by
      intro p hp
      simp only [ps, List.mem_append, List.mem_cons, List.mem_map] at hp
      rcases hp with ⟨y, -, rfl⟩ | rfl | ⟨y, -, rfl⟩
      · exact List.length_replicate ..
      · exact hc
      · exact List.length_replicate ..
    obtain ⟨es, m, h_ready⟩ := exists_ready lib arrow ⟨fun _ => [], ()⟩ h_skip
      h_format ps (fun p hp => h_rows p.1 (h_first ▸ List.mem_map_of_mem hp)) h_length
    obtain ⟨es, l, h_run, h_ended, h_in, h_out⟩ := h_ready.ends
    have h_done := (h lib h_lawful h_fits es l h_run
      ⟨[], by rw [h_in, h_first, List.append_nil], fun _ => rfl⟩).2 h_ended
    have h_stored : storedFiles es = pre.map (fun y => stored (y, zeros)) ++ stored (x, c) ::
        post.map (fun y => stored (y, zeros)) := by
      rw [storedFiles, h_out]
      simp [ps, stored, Function.comp_def]
    rwa [h_stored] at h_done
  exact (h_holds c hc).same_rows (h_holds c' hc')

/-- **What is stored is no file.** The shortest file is longer than what is stored of it, and
otherwise what is stored contains a byte that the buffer held before. -/
theorem not_writesRows_of_streamed (h_lawful : lib.Lawful) (h_fits : lib.Fits env arrow xs)
    (h_skip : env.skipSerializer = false) (h_format : env.iformat = 3 ∨ env.iformat = 2)
    (h_rows : ∀ x ∈ xs, (streamed env arrow x).isSome) (h_ne : xs ≠ []) :
    ¬ WritesRows env arrow xs := by
  intro h_writes
  set keep : List PqRow → Prop := fun rows => ∃ x ∈ xs, streamed env arrow x = some rows
  have h_short : ∀ rows, keep rows → (lib.file rows).length ≤ blockSize env := by
    rintro rows ⟨x, hx, h_x⟩
    exact (h_fits x hx rows h_x).2
  set long := lib.strict keep (blockSize env)
  have h_long : long.Lawful := h_lawful.lengthen h_short
  have h_file : ∀ rows, keep rows → long.file rows = lib.file rows := fun rows h_keep =>
    Codec.lengthen_of_keep h_keep
  have h_fits' : long.Fits env arrow xs := by
    intro x hx rows h_x
    rw [h_file rows ⟨x, hx, h_x⟩]
    exact h_fits x hx rows h_x
  -- the shortest of the files
  set size : List UInt8 → ℕ := fun x => (lib.file ((streamed env arrow x).getD [])).length
  obtain ⟨x, hx, h_least⟩ := xs.toFinset.exists_min_image size
    ((List.toFinset_nonempty_iff xs).mpr h_ne)
  rw [List.mem_toFinset] at hx
  obtain ⟨rows, h_x⟩ := Option.isSome_iff_exists.mp (h_rows x hx)
  have h_size : size x = (lib.file rows).length := by
    change (lib.file ((streamed env arrow x).getD [])).length = _
    rw [h_x, Option.getD_some]
  have h_pos : 0 < size x := by
    rw [h_size]
    exact List.length_pos_of_ne_nil (h_lawful.file_ne_nil rows)
  have h_min : ∀ r, size x ≤ (long.file r).length := by
    intro r
    by_cases h_keep : keep r
    · obtain ⟨y, hy, h_y⟩ := h_keep
      have h_le := h_least y (List.mem_toFinset.mpr hy)
      change _ ≤ (lib.file ((streamed env arrow y).getD [])).length at h_le
      rw [h_y, Option.getD_some] at h_le
      rwa [h_file r ⟨y, hy, h_y⟩]
    · have h_lt : blockSize env < (long.file r).length := Codec.lt_length_lengthen lib.file _ h_keep
      have h_le := h_short rows ⟨x, hx, h_x⟩
      omega
  -- the first byte of the payload that does not stem from the file
  set q := max (size x) sizeofHeader
  have hq : 16 ≤ q := le_max_of_le_right (by decide)
  have h_byte : ∀ old : List UInt8, (fileBlock env long arrow x old)[q]? = old[q]? := fun old =>
    getElem?_fileBlock h_x hq (by rw [h_file rows ⟨x, hx, h_x⟩, ← h_size]; exact le_max_left _ _)
  set zeros := List.replicate (blockSize env) (0 : UInt8)
  set ones := List.replicate (blockSize env) (1 : UInt8)
  have h_zeros : zeros.length = blockSize env := List.length_replicate ..
  have h_ones : ones.length = blockSize env := List.length_replicate ..
  obtain ⟨r, h_read, h_read'⟩ := h_writes.same_rows h_long h_fits' h_skip h_format h_rows hx h_zeros
    h_ones
  have h_data := Codec.file_of_read_ofInjective h_read
  have h_data' := Codec.file_of_read_ofInjective h_read'
  have h_reaches : q - sizeofHeader < (long.file r).length := by
    have h_le := h_min r
    have h_header : 0 < sizeofHeader := by decide
    rcases max_choice (size x) sizeofHeader with h_q | h_q <;> omega
  have h_header : sizeofHeader ≤ q := le_max_right _ _
  have h_at : sizeofHeader + (q - sizeofHeader) = q := by omega
  have h_zero : (long.file r)[q - sizeofHeader]? = zeros[q]? := by
    rw [show long.file r = _ from h_data, getElem?_data (h_data ▸ h_reaches), h_at,
      h_byte zeros]
  have h_one : (long.file r)[q - sizeofHeader]? = ones[q]? := by
    rw [show long.file r = _ from h_data', getElem?_data (h_data' ▸ h_reaches), h_at,
      h_byte ones]
  rw [List.getElem?_eq_getElem h_reaches] at h_zero h_one
  have h_inside : q < blockSize env := by
    by_contra h_out
    rw [List.getElem?_eq_none (by omega)] at h_zero
    cases h_zero
  rw [List.getElem?_replicate, if_pos h_inside] at h_zero h_one
  rw [h_zero] at h_one
  exact absurd h_one (by decide)

/-- A buffer whose rows cannot be streamed ends the thread. -/
theorem not_writesRows_of_throws (h_lawful : lib.Lawful) (h_fits : lib.Fits env arrow xs)
    (h_skip : env.skipSerializer = false) (h_column : env.iformat = 2)
    (h_none : ∃ x ∈ xs, streamed env arrow x = none) : ¬ WritesRows env arrow xs := by
  intro h_writes
  -- the first such buffer
  obtain ⟨x, h_find⟩ := Option.isSome_iff_exists.mp
    (List.find?_isSome (p := fun x => (streamed env arrow x).isNone) |>.mpr
      (h_none.imp fun x hx => ⟨hx.1, Option.isNone_iff_eq_none.mpr hx.2⟩))
  obtain ⟨h_x, pre, post, rfl, h_pre⟩ := List.find?_eq_some_iff_append.mp h_find
  rw [Option.isNone_iff_eq_none] at h_x
  have h_format : env.iformat = 3 ∨ env.iformat = 2 := .inr h_column
  obtain ⟨es, m, h⟩ := exists_ready lib arrow ⟨fun _ => [], ()⟩ h_skip h_format
    (pre.map fun y => (y, List.replicate (blockSize env) 0))
    (by
      intro p hp
      obtain ⟨y, hy, rfl⟩ := List.mem_map.mp hp
      simpa [Option.isSome_iff_ne_none] using h_pre y hy)
    (by
      intro p hp
      obtain ⟨y, -, rfl⟩ := List.mem_map.mp hp
      exact List.length_replicate ..)
  obtain ⟨k, h_pop, h_next⟩ := pqSerialize_popIn lib arrow h_skip h_format
  set m' := twoBlocks m x (List.replicate (blockSize env) 0)
  have h_set : Solo 4 PqSer.held (pqSerialize env lib arrow) (fun _ => False) .popIn _ es .popIn
      m' := h.solo.others (by simp [PqSer.held])
  have h_in := h_set.pop (v := 1) h_pop (by simp) (by simp [PqSer.held]) id
  rw [h_next 1 (by decide)] at h_in
  have h_out := h_in.pop (v := 2) rfl (by simp [marker]) (by simp [PqSer.held, marker]) id
  rw [if_neg (by decide)] at h_out
  have h_throws : streamThrows env (bufferOf x).header.totalTuples = true := by
    by_contra h_ok
    simp [streamed, h_skip, h_column, h_ok] at h_x
  have h_end := h_out.work rfl id
  dsimp only at h_end
  rw [if_neg (by omega), if_pos (show streamThrows env (bufferOf (m'.pool 1)).header.totalTuples
    = true from h_throws)] at h_end
  refine (h_writes lib h_lawful h_fits _ _ ⟨?_, _, _, h_end⟩ ⟨post, ?_, ?_⟩).1 trivial
  · exact (h.takes.pop_of_ne (by decide)).pop (List.length_replicate ..)
  · rw [Event.inputs_popped_of_ne (by decide), Event.inputs_popped (by decide), h.inputs]
    simp [m', twoBlocks, Function.comp_def]
  · rintro ⟨old, h_marker⟩
    refine absurd ?_ (h.noMarker old)
    simpa [marker] using h_marker

end Fails

/-! ### Where nothing arrives -/

section Quiet

variable {env : RuntimeEnv} {lib : Parquet} {arrow : List UInt8 → Option (List PqRow)}
  {es : List (Event (List UInt8))} {l : PqSer} {m₀ m : Memory (List UInt8) Unit}

/-- The program points of a thread that has received no buffer. -/
def PqSer.Quiet : PqSer → Prop
  | .popIn => True
  | .popOut b => b = marker
  | .done _ => True
  | _ => False

/-- A thread that has received no buffer pushes none. -/
theorem quiet_of_inputs_nil
    (h : Solo 4 PqSer.held (pqSerialize env lib arrow) (fun _ => False) .popIn m₀ es l m)
    (h_in : Event.inputs 2 es = []) : Event.outputs 3 es = [] ∧ l.Quiet := by
  -- a prefix of what was received is nothing either
  have h_before : ∀ {es : List (Event (List UInt8))} {e}, Event.inputs 2 (es ++ [e]) = [] →
      Event.inputs 2 es = [] := by
    intro es e h
    rw [Event.inputs, List.filterMap_append] at h
    exact (List.append_eq_nil_iff.mp h).1
  induction h with
  | start => exact ⟨rfl, trivial⟩
  | others _ _ ih => exact ih h_in
  | @pop es l m q k v _ hop h_free _ _ ih =>
    obtain ⟨h_out, h_quiet⟩ := ih (h_before h_in)
    refine ⟨by rw [Event.outputs_popped, h_out], ?_⟩
    -- what is popped from queue 2 is the marker
    have h_marker : q = 2 → v = marker := by
      rintro rfl
      by_contra hv
      rw [Event.inputs_popped hv] at h_in
      exact absurd h_in (List.append_ne_nil_of_right_ne_nil _ (List.cons_ne_nil _ _))
    cases l with
    | popIn =>
      simp only [pqSerialize] at hop
      repeat' split at hop
      all_goals cases hop
      all_goals rw [h_marker rfl]
      · trivial
      · rfl
      · trivial
    -- Arrow goes on with the marker as its input, and then ends
    | popOut b =>
      cases hop
      have h_end : b = marker := h_quiet
      dsimp only
      rw [if_pos h_end]
      trivial
    | done o => cases hop
    | _ => exact h_quiet.elim
  | @push es l m q v l' _ hop _ ih =>
    obtain ⟨-, h_quiet⟩ := ih (h_before h_in)
    cases l with
    | popIn =>
      simp only [pqSerialize] at hop
      repeat' split at hop
      all_goals cases hop
    | popOut b => cases hop
    | done o => cases hop
    | _ => exact h_quiet.elim
  | @work es l m bs f _ hop _ ih =>
    obtain ⟨h_out, h_quiet⟩ := ih h_in
    refine ⟨h_out, ?_⟩
    cases l with
    | popIn =>
      simp only [pqSerialize] at hop
      repeat' split at hop
      all_goals cases hop
      trivial
    | popOut b => cases hop
    | done o => cases hop
    | _ => exact h_quiet.elim

/-- For the other formats the thread receives nothing. -/
theorem inputs_eq_nil (h_skip : env.skipSerializer = false) (h_arrow : env.iformat ≠ 3)
    (h_column : env.iformat ≠ 2)
    (h : Solo 4 PqSer.held (pqSerialize env lib arrow) (fun _ => False) .popIn m₀ es l m) :
    es = [] ∧ (l = .popIn ∨ l = .done none) := by
  have h_op : pqSerialize (σ := Unit) env lib arrow .popIn = .work [] fun m => (m, .done none) := by
    simp [pqSerialize, h_skip, h_arrow, h_column]
  induction h with
  | start => exact ⟨rfl, .inl rfl⟩
  | others _ _ ih => exact ih
  | pop _ hop _ _ _ ih =>
    rcases ih with ⟨-, rfl | rfl⟩
    · rw [h_op] at hop
      cases hop
    · cases hop
  | push _ hop _ ih =>
    rcases ih with ⟨-, rfl | rfl⟩
    · rw [h_op] at hop
      cases hop
    · cases hop
  | work _ hop _ ih =>
    rcases ih with ⟨h_es, rfl | rfl⟩
    · rw [h_op] at hop
      cases hop
      exact ⟨h_es, .inr rfl⟩
    · cases hop

/-- A thread that has received nothing stores no file. -/
theorem writesRows_of_quiet {xs : List (List UInt8)}
    (h_none : ∀ lib es l, PqSerRun env lib arrow es l → Delivers xs es → Event.inputs 2 es = [])
    (h_rows : xs.flatMap (inputRows env arrow) = []) : WritesRows env arrow xs := by
  intro lib h_lawful h_fits es l h_run h_delivers
  obtain ⟨-, m₀, m, h_solo⟩ := id h_run
  obtain ⟨h_out, h_quiet⟩ := quiet_of_inputs_nil h_solo (h_none lib es l h_run h_delivers)
  refine ⟨?_, fun _ => ⟨[], ?_, h_rows.symm⟩⟩
  · cases l <;> first | exact id | exact h_quiet.elim
  · rw [storedFiles, h_out]
    rfl

end Quiet

/-! ### The condition -/

/-- **The sink writes the rows it has received if and only if there is nothing to write**: no buffer
arrives, or there are no rows and the format is one the sink does not take. -/
theorem writesRows_iff (env : RuntimeEnv) (arrow : List UInt8 → Option (List PqRow))
    (xs : List (List UInt8)) (h_complete : ∀ x ∈ xs, CompleteRows env arrow x)
    (h_fits : ∃ lib : Parquet, lib.Lawful ∧ lib.Fits env arrow xs) :
    WritesRows env arrow xs ↔ xs = [] ∨
      env.skipSerializer = false ∧ env.iformat ≠ 3 ∧ env.iformat ≠ 2 ∧
        xs.flatMap (inputRows env arrow) = [] := by
  obtain ⟨lib, h_lawful, h_fits⟩ := h_fits
  constructor
  · intro h_writes
    by_contra h_not
    obtain ⟨h_ne, h_other⟩ := not_or.mp h_not
    cases h_skip : env.skipSerializer with
    | true => exact not_writesRows_of_skip h_skip h_lawful h_ne h_writes
    | false =>
      by_cases h_format : env.iformat = 3 ∨ env.iformat = 2
      · by_cases h_rows : ∀ x ∈ xs, (streamed env arrow x).isSome
        · exact not_writesRows_of_streamed h_lawful h_fits h_skip h_format h_rows h_ne h_writes
        · push Not at h_rows
          obtain ⟨x, hx, h_x⟩ := h_rows
          have h_none : streamed env arrow x = none := by simpa using h_x
          rcases h_format with h_arrow | h_column
          · -- the rows of the Arrow format are complete
            have h_ok := (h_complete x hx).2
            rw [if_pos h_arrow] at h_ok
            rw [streamed, h_skip, if_neg (by decide), if_pos h_arrow] at h_none
            rw [h_none] at h_ok
            cases h_ok
          · exact not_writesRows_of_throws h_lawful h_fits h_skip h_column ⟨x, hx, h_none⟩ h_writes
      · obtain ⟨h_arrow, h_column⟩ := not_or.mp h_format
        -- the thread ends at once
        set m₀ : Memory (List UInt8) Unit := ⟨fun _ => [], ()⟩
        have h_ready : Ready env lib arrow m₀ [] [] [] m₀ :=
          ⟨.start, by simp [Takes], rfl, rfl, by simp⟩
        obtain ⟨es, l, h_run, h_ended, h_in, h_out⟩ := h_ready.ends
        obtain ⟨-, m₀, m, h_solo⟩ := id h_run
        obtain ⟨rfl, -⟩ := inputs_eq_nil h_skip h_arrow h_column h_solo
        obtain ⟨rss, h_read, h_rows⟩ := (h_writes lib h_lawful h_fits [] l h_run
          ⟨xs, rfl, fun h => by simp at h⟩).2 h_ended
        obtain rfl : rss = [] := List.map_eq_nil_iff.mp h_read.symm
        exact h_other ⟨h_skip, h_arrow, h_column, h_rows.symm⟩
  · rintro (rfl | ⟨h_skip, h_arrow, h_column, h_rows⟩)
    · refine writesRows_of_quiet (fun _ es _ _ h_delivers => ?_) rfl
      obtain ⟨rest, h_in, -⟩ := h_delivers
      exact (List.append_eq_nil_iff.mp h_in).1
    · refine writesRows_of_quiet (fun _ es _ h_run _ => ?_) h_rows
      obtain ⟨-, m₀, m, h_solo⟩ := h_run
      obtain ⟨rfl, -⟩ := inputs_eq_nil h_skip h_arrow h_column h_solo
      rfl

/-! ### A buffer with one row -/

/-- The header in front of a payload. -/
theorem bufferOf_append {h : Header} (hw : h.Words) (payload : List UInt8) :
    bufferOf (headerBytes h ++ payload) = ⟨h, payload⟩ := by
  have h_word : ∀ i < 6 + maxAttributes, wordAt (headerBytes h ++ payload) i
      = wordAt (headerBytes h) i := by
    intro i hi
    have h_inside : 8 * i + 8 ≤ sizeofHeader := by
      rw [sizeofHeader]
      omega
    rw [wordAt, wordAt, ← slice_take h_inside, ← hw.length_headerBytes, List.take_left]
  have h_header : headerOfBytes (headerBytes h ++ payload) = headerOfBytes (headerBytes h) := by
    rw [headerOfBytes, headerOfBytes, h_word 0 (by decide), h_word 1 (by decide),
      h_word 2 (by decide), h_word 3 (by decide), h_word 4 (by decide)]
    congr 1
    refine List.map_congr_left fun j hj => h_word _ ?_
    rw [List.mem_range] at hj
    omega
  rw [bufferOf, h_header, headerOfBytes_headerBytes hw, ← hw.length_headerBytes, List.drop_left]

/-- A library whose files are the codes of the rows. -/
noncomputable def codeParquet : Parquet where
  toCodec := Codec.ofInjective (listCode (listCode (listCode fun b => [b])))
  early _ := 0

theorem codeParquet_lawful : codeParquet.Lawful :=
  Codec.ofInjective_lawful prefixFree_byte.listCode.listCode.listCode.injective
    (listCode_ne_nil _)

/-- One column of integers. -/
def intEnv (iformat : ℕ) : RuntimeEnv where
  iformat := iformat
  bufferSize := 1
  buffersInBufferpool := 8
  rcvParallelism := 1
  decompParallelism := 1
  serParallelism := 1
  writeParallelism := 1
  skipSerializer := false
  schema := [⟨.int, 4⟩]

/-- A buffer with `n` rows, all of them 7. -/
def sevens (iformat n : ℕ) : List UInt8 :=
  headerBytes { totalSize := 1024, totalTuples := n, intermediateFormat := iformat } ++
    (List.replicate 256 (leBytes 4 7)).flatten

theorem bufferOf_sevens (iformat n : ℕ) (h_format : iformat < 4) (hn : n < 2) :
    bufferOf (sevens iformat n) =
      ⟨{ totalSize := 1024, totalTuples := n, intermediateFormat := iformat },
        (List.replicate 256 (leBytes 4 7)).flatten⟩ := by
  refine bufferOf_append ⟨?_, List.length_replicate ..⟩ _
  interval_cases iformat <;> interval_cases n <;> decide +kernel

/-- In the row format nothing is lost if there is nothing to lose. -/
theorem writesRows_noRows : WritesRows (intEnv 1) (fun _ => none) [sevens 1 0] := by
  have h_buffer := bufferOf_sevens 1 0 (by decide) (by decide)
  refine (writesRows_iff (intEnv 1) (fun _ => none) [sevens 1 0]
    (List.forall_mem_singleton.mpr ⟨by decide +kernel, ?_⟩)
    ⟨codeParquet, codeParquet_lawful, List.forall_mem_singleton.mpr fun rows h => ?_⟩).mpr
    (.inr ⟨rfl, by decide, by decide, ?_⟩)
  · rw [if_neg (by decide), h_buffer]
    decide
  · cases h
  · rw [List.flatMap_singleton, inputRows, if_neg (by decide), h_buffer]
    rfl

/-- **A row is lost.** The buffer holds the row 7 in the column format; no file with this row is
stored. -/
theorem not_writesRows_seven : ¬ WritesRows (intEnv 2) (fun _ => none) [sevens 2 1] := by
  have h_buffer := bufferOf_sevens 2 1 (by decide) (by decide)
  have h_streamed : streamed (intEnv 2) (fun _ => none) (sevens 2 1) = some [[leBytes 4 1]] := by
    rw [streamed, h_buffer]
    rfl
  refine not_writesRows_of_streamed codeParquet_lawful (List.forall_mem_singleton.mpr ?_) rfl
    (.inr rfl) (List.forall_mem_singleton.mpr (by rw [h_streamed]; rfl)) (List.cons_ne_nil _ _)
  intro rows h_rows
  rw [h_streamed] at h_rows
  obtain rfl := Option.some.inj h_rows
  decide +kernel

end Xdbc.Client
