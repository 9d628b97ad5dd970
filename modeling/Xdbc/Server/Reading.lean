import Xdbc.Server.Partitions

/-!
# What the read threads carry

The lines of the CSV file are followed by double entry (`lineBooks`): a queued partition is worth its
lines, a read thread carries those in its buffer and those it has still to read
(`ReadCSV.carry`), and a push to the deserialization threads is credited with the lines of the
buffer. The other threads have no part in this (`Bystander`).

A thread reads the file as one stream and counts the lines of a partition from the beginning of the
file, so it finds the lines of a partition only while its stream stands there: a thread that has read
some lines and takes another partition that has any (`ReadCSV.Stale`) reads the wrong ones. All
other steps keep the books (`readCSV_posts_lines`).
-/

namespace Xdbc.Server

open Bytes Pipeline

section Reading

variable (env : RuntimeEnv) (ext : External)

/-! ### What a read thread carries -/

/-- The stream has left the beginning of the file, and the partition begins before its end. -/
def ReadCSV.Stale : ReadCSV → Prop
  | .takePart r part => r.file ≠ ext.file ∧ csvStartOff env ext part < wc ext.file
  | _ => False

/-- The lines in the buffer. -/
def CsvVars.written (r : CsvVars) (p : ℤ → Buffer) : List (List UInt8) :=
  lines ((p r.curBid).payload.take r.writePtr)

/-- The lines of partition `part` behind the current line. -/
def CsvVars.ahead (r : CsvVars) (part : ℤ) : List (List UInt8) :=
  (lines r.file).take (csvEndOff env ext part - r.currentLine).toNat

/-- A line has been read but not copied. -/
def CsvVars.reading (r : CsvVars) (part : ℤ) (line : List UInt8) : List (List UInt8) :=
  lines line ++ { r with currentLine := r.currentLine + 1 }.ahead env ext part

/-- The lines a read thread carries. -/
def ReadCSV.carry (p : ℤ → Buffer) : ReadCSV → List (List UInt8)
  | .start => []
  | .popPart r => r.written p
  | .takePart r part => r.written p ++ partLines env ext part
  | .next r part => r.written p ++ r.ahead env ext part
  | .flushPush r part line => lines (p r.curBid).data ++ r.reading env ext part line
  | .flushPop r part line => r.reading env ext part line
  | .copy r part line => r.written p ++ r.reading env ext part line
  | .last r => r.written p
  | .lastPush r => lines (p r.curBid).data
  | .done => []

/-- A text that consists of lines. -/
def IsLines (text : List UInt8) : Prop :=
  ∃ ls : List (List UInt8), (∀ line ∈ ls, newline ∉ line) ∧ text = unlines ls

/-- The buffer contains lines up to the write pointer. -/
structure CsvVars.Writes (r : CsvVars) (p : ℤ → Buffer) : Prop where
  text : IsLines ((p r.curBid).payload.take r.writePtr)
  size : r.sizeWritten = r.writePtr
  le : r.writePtr ≤ env.payloadSize

/-- A line that fits a buffer. -/
structure IsLine (line : List UInt8) : Prop where
  text : ∃ text, newline ∉ text ∧ line = text ++ [newline]
  short : line.length ≤ env.payloadSize

/-- The stream stands at the beginning of a line. -/
def CsvVars.Streams (r : CsvVars) : Prop := ∃ j, r.file = unlines ((lines ext.file).drop j)

/-- What holds of a read thread and its buffer. -/
def ReadCSV.Fine (p : ℤ → Buffer) : ReadCSV → Prop
  | .popPart r => r.Writes env p ∧ r.Streams ext ∧ r.currentLine = 0
  | .takePart r part => r.Writes env p ∧ r.Streams ext ∧ r.currentLine = 0 ∧
      (r.file = ext.file ∨ wc ext.file ≤ csvStartOff env ext part)
  | .next r _ => r.Writes env p ∧ r.Streams ext
  | .flushPush r _ line => r.sizeWritten = 0 ∧ r.Streams ext ∧ IsLine env line
  | .flushPop r _ line => r.sizeWritten = 0 ∧ r.Streams ext ∧ IsLine env line
  | .copy r _ line => r.Writes env p ∧ r.Streams ext ∧ IsLine env line ∧
      r.writePtr + line.length ≤ env.payloadSize
  | .last r => r.Writes env p
  | _ => True

variable {env ext}

theorem skipLines_unlines {ls : List (List UInt8)} (h : ∀ line ∈ ls, newline ∉ line) (k : ℕ) :
    skipLines k (unlines ls) = (min k ls.length, unlines (ls.drop k)) := by
  induction k generalizing ls with
  | zero => simp [skipLines]
  | succ k ih =>
    cases ls with
    | nil => simp [skipLines]
    | cons line ls =>
      obtain ⟨h_first, h_rest⟩ := List.forall_mem_cons.mp h
      rw [skipLines, getline_unlines h_first]
      simp only [ih h_rest, List.drop_succ_cons, List.length_cons, Nat.succ_min_succ]

/-- What a line copied to the buffer adds to the text. -/
theorem CsvVars.Writes.put {r : CsvVars} {p : ℤ → Buffer} (h : r.Writes env p)
    (h_full : Full env (p r.curBid)) {line : List UInt8} (h_line : IsLine env line)
    (h_room : r.writePtr + line.length ≤ env.payloadSize) :
    IsLines ((put (p r.curBid).payload r.writePtr line).take (r.writePtr + line.length)) ∧
      lines ((put (p r.curBid).payload r.writePtr line).take (r.writePtr + line.length))
        = r.written p ++ lines line := by
  obtain ⟨ls, h_ls, h_text⟩ := h.text
  obtain ⟨text, h_new, h_eq⟩ := h_line.text
  -- the text so far ends where `writePtr` stands
  have h_length : (unlines ls).length = r.writePtr := by
    rw [← h_text, List.length_take, h_full]
    exact Nat.min_eq_left h.le
  have h_put : (Bytes.put (p r.curBid).payload (unlines ls).length line).take
      ((unlines ls).length + line.length) = unlines ls ++ line :=
    take_put_append (by rw [h_length]; exact h_text) (by rw [h_length, h_full]; exact h_room)
  rw [h_length] at h_put
  have h_all : ∀ l ∈ ls ++ [text], newline ∉ l := by
    intro l hl
    rcases List.mem_append.mp hl with hl | hl
    · exact h_ls l hl
    · rwa [List.mem_singleton.mp hl]
  -- the line is appended to it
  have h_one : line = unlines [text] := by rw [h_eq, unlines_cons]; rfl
  have h_both : unlines ls ++ line = unlines (ls ++ [text]) := by rw [h_one, unlines_append]
  rw [h_put, h_both, written, h_text, lines_unlines h_ls, lines_unlines h_all, h_one,
    lines_unlines (by simpa using h_new)]
  exact ⟨⟨_, h_all, rfl⟩, rfl⟩

/-- A stream that is not at its end is a line followed by a stream. -/
theorem CsvVars.Streams.getline {r : CsvVars} (h : r.Streams ext) {ls : List (List UInt8)}
    (h_file : LineFile env ext ls) {text rest : List UInt8}
    (h_get : Bytes.getline r.file = some (text, rest)) :
    newline ∉ text ∧ text.length + 1 ≤ env.payloadSize ∧ lines r.file = text :: lines rest ∧
      ∃ j, rest = unlines ((lines ext.file).drop j) := by
  obtain ⟨j, hj⟩ := h
  rw [h_file.lines] at hj
  have h_new : ∀ line ∈ ls.drop j, newline ∉ line := fun line hl =>
    h_file.newline line (List.mem_of_mem_drop hl)
  -- the stream is at some line of the file, or at its end
  cases h_drop : ls.drop j with
  | nil => rw [hj, h_drop] at h_get; cases h_get
  | cons line ls' =>
    have h_mem : line ∈ ls := List.mem_of_mem_drop (by rw [h_drop]; exact List.mem_cons_self)
    rw [h_drop] at h_new
    obtain ⟨h_first, h_rest⟩ := List.forall_mem_cons.mp h_new
    rw [hj, h_drop, getline_unlines h_first] at h_get
    cases h_get
    have h_tail : ls' = ls.drop (j + 1) := by rw [← List.drop_drop, h_drop]; rfl
    refine ⟨h_first, h_file.short _ h_mem, ?_, j + 1, by rw [h_file.lines, h_tail]⟩
    rw [hj, h_drop, lines_unlines h_new, lines_unlines h_rest]

/-- At the end of the stream there are no lines. -/
theorem lines_of_getline_none {file : List UInt8} (h : Bytes.getline file = none) :
    lines file = [] := by
  by_cases h_nil : file = []
  · rw [h_nil, lines_nil]
  · rw [Bytes.getline, if_neg h_nil] at h; cases h

/-- A thread that skips to the beginning of a partition has its lines ahead. -/
theorem CsvVars.ahead_skipTo {r : CsvVars} (h : r.Streams ext) {ls : List (List UInt8)}
    (h_file : LineFile env ext ls) (h_line : r.currentLine = 0) {part : ℤ}
    (h_stale : r.file = ext.file ∨ wc ext.file ≤ csvStartOff env ext part) :
    (r.skipTo (csvStartOff env ext part)).Streams ext ∧
      (r.skipTo (csvStartOff env ext part)).ahead env ext part = partLines env ext part := by
  obtain ⟨j, hj⟩ := h
  rw [h_file.lines] at hj
  have h_new : ∀ k, ∀ line ∈ ls.drop k, newline ∉ line := fun k line hl =>
    h_file.newline line (List.mem_of_mem_drop hl)
  rw [skipTo, h_line, Int.sub_zero, hj, skipLines_unlines (h_new j), List.drop_drop]
  refine ⟨⟨j + (csvStartOff env ext part).toNat, by rw [h_file.lines]⟩, ?_⟩
  rw [ahead, partLines, h_file.lines, lines_unlines (h_new _), List.length_drop]
  generalize (csvStartOff env ext part) = start at h_stale
  by_cases h_start : ls.length ≤ start.toNat
  · -- nothing is left to read
    rw [List.drop_eq_nil_of_le (by omega), List.drop_eq_nil_of_le
      ((List.length_take_le' _ _).trans h_start), List.take_nil]
  · rcases h_stale with h_same | h_behind
    · have h_zero : ls.drop j = ls := by
        rw [h_file.file] at h_same
        rw [← lines_unlines (h_new j), ← hj, h_same, lines_unlines h_file.newline]
      have hj' : j = 0 := by
        have h_length := congrArg List.length h_zero
        rw [List.length_drop] at h_length
        omega
      subst hj'
      rw [List.drop_take]
      congr 1
      · simp only
        omega
      · rw [Nat.zero_add]
    · rw [wc, h_file.file, count_newline_unlines h_file.newline] at h_behind
      omega

/-! ### The other threads -/

/-- The operation of a thread that has no part in reading: it pushes nothing to the first queue and
keeps the size of the payloads. -/
def Bystander (env : RuntimeEnv) {L₀ : Type} : Op L₀ Buffer Sockets → Prop
  | .pop q _ => q < 4
  | .push q _ _ => q = 0 ∨ q = 2 ∨ q = 3
  | .work _ f => ∀ m, (∀ b, Full env (m.pool b)) → ∀ b, Full env ((f m).1.pool b)
  | .leave => True
  | .quit => True

theorem DeserVars.step_full {σ : Type} (X : TextSource) (d : DeserVars) {m : Memory Buffer σ}
    (h : ∀ b, Full env (m.pool b)) : ∀ b, Full env ((d.step X env ext m).1.pool b) := by
  simp only [DeserVars.step]
  split
  · split
    · exact h
    · next len payload h_row =>
      have h_payload : payload.length = env.payloadSize :=
        (length_deserializeRow h_row).trans (h d.outBid)
      split
      · exact full_write h _ h_payload
      · split
        · split
          · split
            · exact h
            · exact full_write h _ ((length_put _ _ _).trans h_payload)
          · exact h
        · exact full_write h _ h_payload
  · exact h

theorem deserializeCSV_bystander (l : Deser) : Bystander env (deserializeCSV env ext l) := by
  cases l with
  | start =>
    simp only [deserializeCSV, deserializeText]
    split <;> simp [Bystander]
  | row d => exact fun m h => d.step_full csvText h
  | rest d =>
    simp only [deserializeCSV, deserializeText]
    split
    · exact fun m h => full_write h _ (h d.outBid)
    · split
      · intro m h
        dsimp only
        split
        · exact h
        · exact full_write h _ ((length_put _ _ _).trans (h d.outBid))
      · exact fun m h => h
  | thrown i o => exact fun m h => h
  | _ => simp [deserializeCSV, deserializeText, Bystander]

theorem length_compressWith (lib : Codecs) (src dst : List UInt8) (size : ℕ) (c : Codec) :
    (compressWith lib src dst size c).2.length = dst.length := by
  cases c with
  | zstd => simp only [compressWith, compressZstd]; split <;> exact length_put _ _ _
  | snappy => exact length_put _ _ _
  | lzo => simp only [compressWith, compressLzo]; split <;> exact length_put _ _ _
  | lz4 => simp only [compressWith, compressLz4]; split <;> exact length_put _ _ _
  | zlib => simp only [compressWith, compressZlib]; split <;> exact length_put _ _ _

theorem length_compressBuffer (lib : Codecs) (src dst : List UInt8) (size : ℕ)
    (method : Compression) (buffSize : ℕ) (schema : List SchemaAttribute) :
    (compressBuffer lib src dst size method buffSize schema).2.length = dst.length := by
  cases method with
  | nocomp => rfl
  | codec c => exact length_compressWith lib src dst size c
  | cols =>
    simp only [compressBuffer, compressCols]
    split
    · rfl
    · exact length_put _ _ _

/-- The compressor keeps the size of both payloads. -/
theorem compressInto_full (lib : Codecs) {inB outB : Buffer} (h_in : Full env inB)
    (h_out : Full env outB) : Full env (compressInto env lib inB outB).inBuffer ∧
      Full env (compressInto env lib inB outB).outBuffer := by
  have h_dst := (length_compressBuffer lib inB.payload outB.payload inB.header.totalSize
    env.compressionAlgorithm env.tuplesPerBuffer env.schema).trans h_out
  simp only [compressInto]
  repeat' split
  all_goals exact ⟨h_in, h_dst⟩

theorem compress_bystander (l : Comp) : Bystander env (compress env ext l) := by
  cases l with
  | compress b o =>
    intro m h
    obtain ⟨h_in, h_out⟩ := compressInto_full ext.codecs (h b) (h o)
    exact full_write (full_write h _ h_in) _ h_out
  | _ => simp [compress, Bystander]

theorem send_bystander (i : ℕ) (l : Send) : Bystander env (send ext i l) := by
  cases l with
  | write j b =>
    simp only [send]
    split <;> exact fun m h => h
  | _ => simp [send, Bystander]

/-- All threads but the read threads are bystanders. -/
theorem bystander (t : Tid 4 (parallelism env)) (l : Local .csv t.1) (ht : (t.1 : ℕ) ≠ 0) :
    Bystander env ((machine .csv env ext).prog t l) := by
  obtain ⟨k, i⟩ := t
  match k, i, l, ht with
  | 0, _, _, ht => exact absurd rfl ht
  | 1, _, l, _ => exact deserializeCSV_bystander l
  | 2, _, l, _ => exact compress_bystander l
  | 3, i, l, _ => exact send_bystander i l

/-! ### The books -/

section Books

variable (env ext)

/-- The lines a thread carries. -/
def linesCarried : (t : Tid 4 (parallelism env)) → Local .csv t.1 → (ℤ → Buffer) →
    Multiset (List UInt8)
  | ⟨0, _⟩, l, p => ReadCSV.carry env ext p l
  | ⟨1, _⟩, _, _ => 0
  | ⟨2, _⟩, _, _ => 0
  | ⟨3, _⟩, _, _ => 0

/-- What holds of a thread. -/
def LinesFine : (t : Tid 4 (parallelism env)) → Local .csv t.1 → (ℤ → Buffer) → Prop
  | ⟨0, _⟩, l, p => ReadCSV.Fine env ext p l
  | ⟨1, _⟩, _, _ => True
  | ⟨2, _⟩, _, _ => True
  | ⟨3, _⟩, _, _ => True

/-- A queued partition is worth its lines. -/
def lineWeight (q : ℕ) (v : ℤ) : Multiset (List UInt8) :=
  if q = partQueue ∧ v ≠ marker then partLines env ext v else 0

/-- The lines in a buffer that is pushed to the deserialization threads. -/
def linesPushed (e : Push Buffer) : Multiset (List UInt8) :=
  if e.item = marker ∨ e.queue ≠ 1 then 0 else lines e.content.data

/-- The lines of the file, in all places. -/
def lineBooks : Books (machine .csv env ext) (Multiset (List UInt8)) where
  queues := 5
  weight q v _ := lineWeight env ext q v
  valid _ _ _ := True
  carry := linesCarried env ext
  ok := LinesFine env ext
  out _ := 0
  debit _ := 0
  credit := linesPushed
  fine _ := True
  fit := Full env

variable {env ext} {bad : (t : Tid 4 (parallelism env)) → Local .csv t.1 → Prop}

theorem lineWeight_of_ne {q : ℕ} (h : q ≠ partQueue) (v : ℤ) : lineWeight env ext q v = 0 :=
  if_neg fun h' => h h'.1

theorem linesPushed_of_ne {q : ℕ} (h : q ≠ 1) (v : ℤ) (b : Buffer) :
    linesPushed ⟨q, v, b⟩ = 0 := if_pos (.inr h)

/-- A bystander moves no lines. -/
theorem Bystander.posts {t : Tid 4 (parallelism env)} {l : Local .csv t.1} (ht : (t.1 : ℕ) ≠ 0)
    {op : Op (Local .csv t.1) Buffer Sockets} (h : Bystander env op) :
    (lineBooks env ext).Posts bad t l op := by
  -- only the readers carry lines
  have h_carry : ∀ l' p, linesCarried env ext t l' p = 0 := by
    intro l' p
    obtain ⟨k, i⟩ := t
    match k, i, ht with
    | 0, _, ht => exact absurd rfl ht
    | 1, _, _ => rfl
    | 2, _, _ => rfl
    | 3, _, _ => rfl
  have h_fine : ∀ l' p, LinesFine env ext t l' p := by
    intro l' p
    obtain ⟨k, i⟩ := t
    match k, i, ht with
    | 0, _, ht => exact absurd rfl ht
    | 1, _, _ => trivial
    | 2, _, _ => trivial
    | 3, _, _ => trivial
  cases op with
  | pop q k =>
    -- and only they take partitions and push to queue 1
    refine ⟨by simp only [lineBooks]; exact Nat.lt_succ_of_lt h, fun v p _ _ _ _ _ => ⟨h_fine _ _, ?_⟩⟩
    simp only [lineBooks, h_carry]
    rw [lineWeight_of_ne (ne_of_lt h), add_zero]
  | push q v l' =>
    have h_queue : q = 0 ∨ q = 2 ∨ q = 3 := h
    refine ⟨by simp only [lineBooks]; omega, fun p _ _ _ _ => ⟨trivial, h_fine _ _, ?_⟩⟩
    simp only [lineBooks, h_carry]
    rw [lineWeight_of_ne (by simp only [partQueue]; omega), linesPushed_of_ne (by omega)]
    rfl
  | work bs f =>
    refine fun m h_full _ _ => ⟨h m h_full, h_fine _ _, ?_⟩
    simp only [lineBooks, h_carry]
  | leave => trivial
  | quit => trivial

/-- A line that is copied to the buffer has been written. -/
theorem CsvVars.copyLine_posts (part : ℤ) {r : CsvVars}
    {line : List UInt8} {m : Memory Buffer Sockets} (h_full : ∀ b, Full env (m.pool b))
    (h_writes : r.Writes env m.pool) (h_streams : r.Streams ext) (h_line : IsLine env line)
    (h_room : r.writePtr + line.length ≤ env.payloadSize) :
    (∀ b, Full env ((r.copyLine part line m).1.pool b)) ∧
      (r.copyLine part line m).2.Fine env ext (r.copyLine part line m).1.pool ∧
      (r.copyLine part line m).2.carry env ext (r.copyLine part line m).1.pool
        = r.written m.pool ++ r.reading env ext part line := by
  obtain ⟨h_text, h_lines⟩ := h_writes.put (h_full r.curBid) h_line h_room
  have h_payload : ((r.copyLine part line m).1.pool r.curBid).payload
      = put (m.pool r.curBid).payload r.writePtr line := by
    simp only [copyLine, Memory.write_pool_self]
  refine ⟨full_write h_full _ ((length_put _ _ _).trans (h_full _)), ⟨⟨?_, ?_, h_room⟩, h_streams⟩, ?_⟩
  · rw [h_payload]; exact h_text
  · exact congrArg (· + line.length) h_writes.size
  · change lines (((r.copyLine part line m).1.pool r.curBid).payload.take
      (r.writePtr + line.length)) ++ _ = _
    rw [h_payload, h_lines, List.append_assoc]
    rfl

/-- The header announces what has been written. -/
theorem CsvVars.Writes.data {r : CsvVars} {m : Memory Buffer Sockets}
    (h : r.Writes env m.pool) : lines ((r.writeHeader m).pool r.curBid).data = r.written m.pool := by
  simp only [CsvVars.writeHeader, Memory.write_pool_self, Buffer.data, written, h.size]

/-- **Reading moves lines** from the partitions to the buffers. -/
theorem readCSV_posts_lines {ls : List (List UInt8)} (h_file : LineFile env ext ls)
    (i : Fin env.readParallelism) (l : ReadCSV) (h_none : NoMarker ReadCSV.held l)
    (h_bad : ∀ l, ReadCSV.Stale env ext l → bad ⟨0, i⟩ l) :
    (lineBooks env ext).Posts bad ⟨0, i⟩ l (readCSV env ext i l) := by
  -- free buffers contain no lines
  have h_pop : ∀ (k : ℤ → ReadCSV), (∀ v p, LinesFine env ext ⟨0, i⟩ l p →
        ReadCSV.Fine env ext p (k v) ∧ (k v).carry env ext p = l.carry env ext p) →
      (lineBooks env ext).Posts bad ⟨0, i⟩ l (.pop 0 k) := fun k h =>
    ⟨(by decide : 0 < 5), fun v p _ h_ok _ _ _ => ⟨(h v p h_ok).1, by
      simp only [lineBooks, linesCarried, (h v p h_ok).2]
      rw [lineWeight_of_ne (by decide), add_zero]⟩⟩
  -- a push moves the lines of the buffer to the history
  have h_push : ∀ (r : CsvVars) (l' : ReadCSV), r.curBid ≠ marker → (∀ p, LinesFine env ext ⟨0, i⟩ l p →
        ReadCSV.Fine env ext p l' ∧ l.carry env ext p = lines (p r.curBid).data ++ l'.carry env ext p) →
      (lineBooks env ext).Posts bad ⟨0, i⟩ l (.push 1 r.curBid l') := fun r l' hb h =>
    ⟨(by decide : 1 < 5), fun p _ h_ok _ _ => ⟨trivial, (h p h_ok).1, by
      simp only [lineBooks, linesCarried, (h p h_ok).2, linesPushed]
      rw [lineWeight_of_ne (by decide), if_neg (by simpa using hb), add_zero, add_zero, add_comm,
        ← Multiset.coe_add]⟩⟩
  cases l with
  | start =>
    simp only [readCSV]
    split
    · -- the stream begins at the beginning of the file
      refine h_pop _ fun v p _ => ⟨⟨⟨⟨[], by simp, rfl⟩, rfl, Nat.zero_le _⟩, ⟨0, ?_⟩, rfl⟩, rfl⟩
      rw [List.drop_zero, h_file.lines]
      exact h_file.file
    · trivial
  | popPart r =>
    refine ⟨(by decide : 4 < 5), fun v p _ h_ok _ _ h_not => ?_⟩
    obtain ⟨h_writes, h_streams, h_zero⟩ := h_ok
    dsimp only at h_not ⊢
    -- the marker stands for no partition
    by_cases hv : v = marker
    · rw [if_pos hv]
      refine ⟨h_writes, ?_⟩
      simp [lineBooks, linesCarried, ReadCSV.carry, lineWeight, hv]
    · rw [if_neg hv] at h_not ⊢
      have h_stale := mt (h_bad _) h_not
      refine ⟨⟨h_writes, h_streams, h_zero, ?_⟩, ?_⟩
      · -- a partition is entered with a fresh stream, or one that stands in front of it
        simp only [ReadCSV.Stale] at h_stale
        by_cases h_same : r.file = ext.file
        · exact .inl h_same
        · exact .inr (not_lt.mp fun h_lt => h_stale ⟨h_same, h_lt⟩)
      · simp [lineBooks, linesCarried, ReadCSV.carry, lineWeight, hv]
  | takePart r part =>
    intro m h_full h_ok _
    obtain ⟨h_writes, h_streams, h_zero, h_stale⟩ := h_ok
    obtain ⟨h_streams', h_ahead⟩ := CsvVars.ahead_skipTo h_streams h_file h_zero h_stale
    refine ⟨h_full, ⟨⟨h_writes.text, h_writes.size, h_writes.le⟩, h_streams'⟩, ?_⟩
    simp only [lineBooks, linesCarried, ReadCSV.carry, h_ahead]
    rfl
  -- a partition is left where its lines or those of the file are at an end
  | next r part =>
    have h_end : ∀ m : Memory Buffer Sockets, LinesFine env ext ⟨0, i⟩ (.next r part) m.pool →
        r.ahead env ext part = [] →
        ReadCSV.Fine env ext m.pool (.popPart { r with currentLine := 0 }) ∧
          (ReadCSV.popPart { r with currentLine := 0 }).carry env ext m.pool
            = (ReadCSV.next r part).carry env ext m.pool := by
      rintro m ⟨h_writes, h_streams⟩ h_nil
      refine ⟨⟨⟨h_writes.text, h_writes.size, h_writes.le⟩, h_streams, rfl⟩, ?_⟩
      rw [ReadCSV.carry, ReadCSV.carry, h_nil, List.append_nil]
      rfl
    simp only [readCSV]
    split
    · next h_more =>
      split
      · next h_get =>
        refine fun m h_full h_ok _ => ?_
        obtain ⟨h_fine, h_carry⟩ := h_end m h_ok (by
          rw [CsvVars.ahead, lines_of_getline_none h_get, List.take_nil])
        exact ⟨h_full, h_fine, by simp only [lineBooks, linesCarried, h_carry]⟩
      · next text rest h_get =>
        -- the line that is read is the next one of the partition
        have h_line : ∀ m : Memory Buffer Sockets, LinesFine env ext ⟨0, i⟩ (.next r part) m.pool →
            IsLine env (text ++ [newline]) ∧ { r with file := rest }.Streams ext ∧
              (ReadCSV.next r part).carry env ext m.pool
                = r.written m.pool ++ { r with file := rest }.reading env ext part (text ++ [newline]) := by
          rintro m ⟨-, h_streams⟩
          obtain ⟨h_new, h_short, h_lines, h_rest⟩ := h_streams.getline h_file h_get
          refine ⟨⟨⟨text, h_new, rfl⟩, by simpa using h_short⟩, h_rest, ?_⟩
          obtain ⟨k, hk⟩ : ∃ k, (csvEndOff env ext part - r.currentLine).toNat = k + 1 :=
            Nat.exists_eq_succ_of_ne_zero (by omega)
          have hk' : (csvEndOff env ext part - (r.currentLine + 1)).toNat = k := by omega
          rw [ReadCSV.carry, CsvVars.ahead, hk, h_lines, List.take_succ_cons, CsvVars.reading,
            CsvVars.ahead, hk', lines_cons h_new, lines_nil]
          rfl
        split
        · -- the buffer is full, and its header announces the lines
          refine fun m h_full h_ok _ => ?_
          obtain ⟨h_is, h_streams, h_carry⟩ := h_line m h_ok
          refine ⟨full_write h_full _ (h_full r.curBid), ⟨rfl, h_streams, h_is⟩, ?_⟩
          simp only [lineBooks, linesCarried, h_carry]
          simp only [ReadCSV.carry]
          rw [CsvVars.Writes.data (r := { r with file := rest }) ⟨h_ok.1.text, h_ok.1.size, h_ok.1.le⟩]
          rfl
        · next h_room =>
          -- there is room for the line
          refine fun m h_full h_ok _ => ?_
          obtain ⟨h_is, h_streams, h_carry⟩ := h_line m h_ok
          obtain ⟨h_full', h_fine, h_copy⟩ := CsvVars.copyLine_posts part
            (r := { r with file := rest }) h_full ⟨h_ok.1.text, h_ok.1.size, h_ok.1.le⟩ h_streams h_is
            (by simp only; omega)
          refine ⟨h_full', h_fine, ?_⟩
          simp only [lineBooks, linesCarried, h_carry, h_copy]
          rfl
    · next h_done =>
      refine fun m h_full h_ok _ => ?_
      obtain ⟨h_fine, h_carry⟩ := h_end m h_ok (by
        rw [CsvVars.ahead, Int.toNat_of_nonpos (by omega), List.take_zero])
      exact ⟨h_full, h_fine, by simp only [lineBooks, linesCarried, h_carry]⟩
  | flushPush r part line => exact h_push _ _ (h_none _ (by simp [ReadCSV.held])) fun p h_ok => ⟨h_ok, rfl⟩
  | flushPop r part line =>
    refine h_pop _ fun v p h_ok => ?_
    obtain ⟨h_zero, h_streams, h_line⟩ := h_ok
    exact ⟨⟨⟨⟨[], by simp, rfl⟩, h_zero, Nat.zero_le _⟩, h_streams, h_line, by
      simpa using h_line.short⟩, rfl⟩
  | copy r part line =>
    refine fun m h_full h_ok _ => ?_
    obtain ⟨h_writes, h_streams, h_line, h_room⟩ := h_ok
    obtain ⟨h_full', h_fine, h_copy⟩ :=
      CsvVars.copyLine_posts part h_full h_writes h_streams h_line h_room
    refine ⟨h_full', h_fine, ?_⟩
    simp only [lineBooks, linesCarried, h_copy]
    rfl
  | last r =>
    refine fun m h_full h_ok _ => ⟨full_write h_full _ (h_full r.curBid), trivial, ?_⟩
    simp only [lineBooks, linesCarried, ReadCSV.carry]
    -- the last header announces the lines
    rw [CsvVars.Writes.data h_ok]
  | lastPush r =>
    exact h_push _ _ (h_none _ (by simp [ReadCSV.held])) fun p _ => ⟨trivial, by simp [ReadCSV.carry]⟩
  | done => trivial

end Books

/-- What is known of a read thread is about the buffer it holds. -/
theorem ReadCSV.fine_congr {l : ReadCSV} {p p' : ℤ → Buffer} (h : ∀ b ∈ l.held, p b = p' b)
    (h_fine : l.Fine env ext p) : l.Fine env ext p' := by
  have h_writes : ∀ r : CsvVars, p r.curBid = p' r.curBid → r.Writes env p → r.Writes env p' := by
    rintro r h_eq ⟨h_text, h_size, h_le⟩
    rw [h_eq] at h_text
    exact ⟨h_text, h_size, h_le⟩
  cases l with
  | popPart r => exact ⟨h_writes r (h _ (by simp [held])) h_fine.1, h_fine.2⟩
  | takePart r part => exact ⟨h_writes r (h _ (by simp [held])) h_fine.1, h_fine.2⟩
  | next r part => exact ⟨h_writes r (h _ (by simp [held])) h_fine.1, h_fine.2⟩
  | copy r part line => exact ⟨h_writes r (h _ (by simp [held])) h_fine.1, h_fine.2⟩
  | last r => exact h_writes r (h _ (by simp [held])) h_fine
  | _ => exact h_fine

end Reading

end Xdbc.Server
