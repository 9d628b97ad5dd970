import Xdbc.Server.Ownership
import Xdbc.Pipeline.Packing

/-!
# How the read threads fill their buffers

`readCSV` and `readPG` copy texts, each behind the last one, into a buffer until the next does not
fit, and push the buffer. What is common to both is the buffer: `Filled` says that it holds the
texts copied so far, and the header that is written at the end announces them (`Filled.holds`).

The two differ in the test for a full buffer. `readCSV` compares with the size of the vector, from
which it subtracts the header once more, so a text always fits (`lines_packed`). `readPG` compares
with `buffer_size * 1024`, which is not the size of the vector: the vector holds whole tuples and a
header. Its rows stay inside exactly if what the tuples leave of `buffer_size * 1024` is not more
than a header (`rows_packed_iff`).
-/

namespace Xdbc.Server

open Bytes Pipeline

/-! ### Texts in a buffer -/

section Texts

/-- The payload that the header announces are the texts, and the header tells how many. -/
structure HoldsTexts (texts : List (List UInt8)) (b : Buffer) : Prop where
  data : b.data = texts.flatten
  tuples : b.header.totalTuples = texts.length
  size : b.header.totalSize = texts.flatten.length

/-- The texts, packed into the buffers of the first queue. -/
def textPacking : Packing Buffer (List UInt8) where
  sink := 1
  Holds := HoldsTexts

/-- The open buffer holds the texts, and the counters of the thread agree. -/
structure Filled (env : RuntimeEnv) (writePtr sizeWritten tuples : ℕ) (b : Buffer)
    (texts : List (List UInt8)) : Prop where
  text : b.payload.take writePtr = texts.flatten
  ptr : writePtr = texts.flatten.length
  size : sizeWritten = writePtr
  tuples : tuples = texts.length
  full : Full env b

variable {env : RuntimeEnv} {writePtr sizeWritten tuples : ℕ} {b : Buffer}
  {texts : List (List UInt8)}

/-- A buffer to which nothing has been written. -/
theorem Filled.empty (h : Full env b) : Filled env 0 0 0 b [] :=
  ⟨rfl, rfl, rfl, rfl, h⟩

/-- **A text is copied** behind the others. -/
theorem Filled.copy (h : Filled env writePtr sizeWritten tuples b texts) {text : List UInt8}
    (h_room : writePtr + text.length ≤ env.payloadSize) :
    Filled env (writePtr + text.length) (sizeWritten + text.length) (tuples + 1)
      { b with payload := put b.payload writePtr text } (texts ++ [text]) := by
  obtain ⟨h_text, rfl, h_size, h_tuples, h_full⟩ := h
  refine ⟨?_, ?_, ?_, ?_, (length_put _ _ _).trans h_full⟩
  · rw [List.flatten_append, List.flatten_singleton]
    apply take_put_append h_text
    rw [h_full]
    exact h_room
  · rw [List.flatten_append, List.flatten_singleton, List.length_append]
  · rw [h_size]
  · rw [h_tuples, List.length_append, List.length_singleton]

/-- **The header announces** what the buffer holds. -/
theorem Filled.holds (h : Filled env writePtr sizeWritten tuples b texts) :
    HoldsTexts texts { b with header := { totalSize := sizeWritten, totalTuples := tuples } } := by
  obtain ⟨h_text, h_ptr, h_size, h_tuples, -⟩ := h
  refine ⟨?_, h_tuples, ?_⟩
  · change b.payload.take sizeWritten = _
    rw [h_size]
    exact h_text
  · change sizeWritten = _
    rw [h_size]
    exact h_ptr

end Texts

/-! ### `readCSV` -/

section Csv

variable (env : RuntimeEnv) (ext : External)

/-- Read up to `k` lines: the lines, each with its newline, and what is left of the stream. -/
def takeLines : ℕ → List UInt8 → List (List UInt8) × List UInt8
  | 0, file => ([], file)
  | k + 1, file =>
    match getline file with
    | none => ([], file)
    | some (text, rest) => ((text ++ [newline]) :: (takeLines k rest).1, (takeLines k rest).2)

/-- The lines that partition `part` has on a stream, and what is left of the stream. -/
def readPart (file : List UInt8) (part : ℤ) : List (List UInt8) × List UInt8 :=
  let s := skipLines (csvStartOff env ext part).toNat file
  takeLines (csvEndOff env ext part - s.1).toNat s.2

/-- The lines of several partitions, read one after the other from the same stream. -/
def readParts (parts : List ℤ) : List (List UInt8) × List UInt8 :=
  parts.foldl (fun r part =>
    (r.1 ++ (readPart env ext r.2 part).1, (readPart env ext r.2 part).2)) ([], ext.file)

/-- The lines a thread reads, of the partitions it has taken. -/
def linesTaken (es : List (Event Buffer)) : List (List UInt8) :=
  (readParts env ext (Event.taken partQueue es)).1

/-- Where the stream of a thread stands behind the partitions it has taken. -/
def streamBehind (es : List (Event Buffer)) : List UInt8 :=
  (readParts env ext (Event.taken partQueue es)).2

/-- The end of what the next operation writes to the vector of the current buffer. -/
def ReadCSV.extent : ReadCSV → ℕ
  | .next r part =>
    if r.currentLine < csvEndOff env ext part then
      match getline r.file with
      | none => 0
      | some (text, _) =>
        let line := text ++ [newline]
        if sizeofHeader + r.writePtr + line.length > env.payloadSize then sizeofHeader
        else sizeofHeader + r.writePtr + line.length
    else 0
  | .copy r _ line => sizeofHeader + r.writePtr + line.length
  | .last _ => sizeofHeader
  | _ => 0

/-- The lines of the partition that are ahead of a thread. -/
def CsvVars.upcoming (r : CsvVars) (part : ℤ) : List (List UInt8) × List UInt8 :=
  takeLines (csvEndOff env ext part - r.currentLine).toNat r.file

/-- The buffer in hand holds the texts. -/
def CsvVars.Fills (r : CsvVars) (p : ℤ → Buffer) : List (List UInt8) → Prop :=
  Filled env r.writePtr r.sizeWritten r.tuplesWritten (p r.curBid)

/-- Of partition `part` the line in hand and those ahead are not in a buffer yet. -/
def CsvVars.Pending (r : CsvVars) (es : List (Event Buffer)) (InHand : List (List UInt8) → Prop)
    (part : ℤ) (line : List UInt8) : Prop :=
  let r' := { r with currentLine := r.currentLine + 1 }
  textPacking.Splits es InHand (linesTaken env ext es) (line :: (r'.upcoming env ext part).1) ∧
    (r'.upcoming env ext part).2 = streamBehind env ext es ∧ line.length ≤ env.payloadSize

/-- **Where the lines are** at each program point. -/
def ReadCSV.Packs (es : List (Event Buffer)) (p : ℤ → Buffer) : ReadCSV → Prop
  | .start => Event.outputs 1 es = [] ∧ Event.taken partQueue es = []
  | .popPart r => textPacking.Splits es (r.Fills env p) (linesTaken env ext es) [] ∧
      r.file = streamBehind env ext es ∧ r.currentLine = 0
  | .takePart r part =>
    let r' := r.skipTo (csvStartOff env ext part)
    textPacking.Splits es (r'.Fills env p) (linesTaken env ext es) (r'.upcoming env ext part).1 ∧
      (r'.upcoming env ext part).2 = streamBehind env ext es
  | .next r part =>
    textPacking.Splits es (r.Fills env p) (linesTaken env ext es) (r.upcoming env ext part).1 ∧
      (r.upcoming env ext part).2 = streamBehind env ext es
  | .flushPush r part line => r.sizeWritten = 0 ∧ r.tuplesWritten = 0 ∧
      r.Pending env ext es (fun texts => HoldsTexts texts (p r.curBid)) part line
  | .flushPop r part line => r.sizeWritten = 0 ∧ r.tuplesWritten = 0 ∧
      r.Pending env ext es (fun texts => texts = []) part line
  | .copy r part line => r.writePtr = 0 ∧ r.Pending env ext es (r.Fills env p) part line
  | .last r => textPacking.Splits es (r.Fills env p) (linesTaken env ext es) []
  | .lastPush r =>
    textPacking.Splits es (fun texts => HoldsTexts texts (p r.curBid)) (linesTaken env ext es) []
  | .done => textPacking.Splits es (fun texts => texts = []) (linesTaken env ext es) []

variable {env ext} {es : List (Event Buffer)} {p p' : ℤ → Buffer}

theorem readParts_concat (parts : List ℤ) (part : ℤ) :
    readParts env ext (parts ++ [part])
      = ((readParts env ext parts).1 ++ (readPart env ext (readParts env ext parts).2 part).1,
        (readPart env ext (readParts env ext parts).2 part).2) := by
  rw [readParts, List.foldl_append]
  rfl

/-- What has been read stays read. -/
theorem mem_linesTaken_concat {line : List UInt8} (e : Event Buffer)
    (h : line ∈ linesTaken env ext es) : line ∈ linesTaken env ext (es ++ [e]) := by
  have h_parts : Event.taken partQueue (es ++ [e]) = Event.taken partQueue es ∨
      ∃ part, Event.taken partQueue (es ++ [e]) = Event.taken partQueue es ++ [part] := by
    unfold Event.taken
    rw [List.filterMap_append]
    cases h_one : Event.itemTaken partQueue e with
    | none => exact .inl (by simp [h_one])
    | some part => exact .inr ⟨part, by simp [h_one]⟩
  unfold linesTaken
  rcases h_parts with h_same | ⟨part, h_more⟩
  · rw [h_same]
    exact h
  · rw [h_more, readParts_concat]
    exact List.mem_append_left _ h

/-- What is known of a thread is about the buffer it holds. -/
theorem ReadCSV.Packs.congr {l : ReadCSV} (h_own : ∀ b ∈ l.held, p' b = p b)
    (h : l.Packs env ext es p) : l.Packs env ext es p' := by
  cases l with
  | start => exact h
  | flushPop r part line => exact h
  | done => exact h
  | popPart r => rwa [ReadCSV.Packs, CsvVars.Fills, h_own r.curBid (by simp [held])]
  | takePart r part =>
    have h_cur : p' (r.skipTo (csvStartOff env ext part)).curBid
        = p (r.skipTo (csvStartOff env ext part)).curBid := h_own r.curBid (by simp [held])
    rwa [ReadCSV.Packs, CsvVars.Fills, h_cur]
  | next r part => rwa [ReadCSV.Packs, CsvVars.Fills, h_own r.curBid (by simp [held])]
  | flushPush r part line => rwa [ReadCSV.Packs, h_own r.curBid (by simp [held])]
  | copy r part line => rwa [ReadCSV.Packs, CsvVars.Fills, h_own r.curBid (by simp [held])]
  | last r => rwa [ReadCSV.Packs, CsvVars.Fills, h_own r.curBid (by simp [held])]
  | lastPush r => rwa [ReadCSV.Packs, h_own r.curBid (by simp [held])]

/-- A line that has been read and fits is copied. -/
theorem CsvVars.Pending.copyLine {σ : Type} {r : CsvVars} {part : ℤ} {line : List UInt8}
    {m : Memory Buffer σ} (h : r.Pending env ext es (r.Fills env m.pool) part line)
    (h_room : r.writePtr + line.length ≤ env.payloadSize) :
    (r.copyLine part line m).2.Packs env ext es (r.copyLine part line m).1.pool := by
  obtain ⟨h_splits, h_stream, -⟩ := h
  refine ⟨h_splits.next fun texts h_fills => ?_, h_stream⟩
  change Filled env _ _ _ ((m.write r.curBid _).pool r.curBid) _
  rw [Memory.write_pool_self]
  exact h_fills.copy h_room

/-- **The test of the loop** over the lines of a partition. -/
theorem ReadCSV.Packs.next {σ : Type} {r : CsvVars} {part : ℤ} {m : Memory Buffer σ}
    (h : (ReadCSV.next r part).Packs env ext es m.pool)
    (h_short : ∀ line ∈ linesTaken env ext es, line.length ≤ env.payloadSize) {thr : ℕ}
    {bs : List ℤ} {f : Memory Buffer σ → Memory Buffer σ × ReadCSV}
    (hop : readCSV env ext thr (.next r part) = .work bs f) :
    (f m).2.Packs env ext es (f m).1.pool := by
  obtain ⟨h_splits, h_stream⟩ := h
  simp only [readCSV] at hop
  split at hop
  · next h_lt =>
    -- there is one more line to read, or the stream is at its end
    have h_count : (csvEndOff env ext part - r.currentLine).toNat
        = (csvEndOff env ext part - (r.currentLine + 1)).toNat + 1 := by omega
    rw [CsvVars.upcoming, h_count, takeLines] at h_splits h_stream
    split at hop
    · next h_none =>
      -- the stream is at its end, and the partition with it
      rw [h_none] at h_splits h_stream
      cases hop
      exact ⟨h_splits, h_stream, rfl⟩
    · next text rest h_some =>
      rw [h_some] at h_splits h_stream
      have h_fits : (text ++ [newline]).length ≤ env.payloadSize := by
        obtain ⟨groups, hand, -, -, h_items⟩ := h_splits
        apply h_short
        rw [h_items]
        simp
      split at hop
      · cases hop
        refine ⟨rfl, rfl, ?_, h_stream, h_fits⟩
        refine h_splits.imp fun texts h_fills => ?_
        change HoldsTexts texts ((m.write r.curBid _).pool r.curBid)
        rw [Memory.write_pool_self]
        exact h_fills.holds
      · next h_room =>
        -- there is room for the line, and it is copied behind the others
        cases hop
        have h_pending : CsvVars.Pending env ext { r with file := rest } es
            (r.Fills env m.pool) part (text ++ [newline]) := ⟨h_splits, h_stream, h_fits⟩
        apply CsvVars.Pending.copyLine h_pending
        simp only at h_room ⊢
        omega
  · next h_end =>
    -- the partition has no more lines
    have h_zero : (csvEndOff env ext part - r.currentLine).toNat = 0 := by omega
    rw [CsvVars.upcoming, h_zero, takeLines] at h_splits h_stream
    cases hop
    exact ⟨h_splits, h_stream, rfl⟩

/-- **Step lemma.** Every operation of a read thread keeps track of the lines. -/
theorem readCSV_packs {σ : Type} {thr : ℕ} {m₀ m : Memory Buffer σ} {l : ReadCSV}
    (h : Solo 4 ReadCSV.held (readCSV env ext thr) (fun _ => False) .start m₀ es l m)
    (h_full : Takes 0 (Full env) es)
    (h_short : ∀ line ∈ linesTaken env ext es, line.length ≤ env.payloadSize) :
    l.Packs env ext es m.pool := by
  induction h with
  | start => exact ⟨rfl, rfl⟩
  | others _ h_own ih => exact (ih h_full h_short).congr h_own
  | @pop es l m q k v _ hop h_free h_new h_good ih =>
    have h_inv := ih h_full.of_append fun line hl => h_short line (mem_linesTaken_concat _ hl)
    cases l with
    | start =>
      simp only [readCSV] at hop
      split at hop <;> cases hop
      obtain ⟨h_out, h_taken⟩ := h_inv
      have h_none : Event.taken partQueue (es ++ [.popped 0 v (m.pool v)]) = [] := by
        rw [Event.taken_popped_of_ne (by decide), h_taken]
      rw [ReadCSV.Packs, linesTaken, streamBehind, h_none]
      refine ⟨?_, rfl, rfl⟩
      -- the first buffer is empty, and no partition has been taken
      apply Packing.Splits.first
      · rw [Event.outputs_popped]
        exact h_out
      · exact Filled.empty (h_full.popped (h_free rfl))
    | popPart r =>
      simp only [readCSV] at hop
      cases hop
      obtain ⟨h_splits, h_stream, h_line⟩ := h_inv
      dsimp only
      by_cases hv : v = marker
      · -- the marker is no partition
        subst hv
        rw [if_pos rfl, ReadCSV.Packs, linesTaken, Event.taken_popped_marker]
        exact h_splits.popped
      · rw [if_neg hv, ReadCSV.Packs, linesTaken, streamBehind, Event.taken_popped hv,
          readParts_concat]
        -- the lines of the partition are those behind its beginning in the stream
        have h_part : (r.skipTo (csvStartOff env ext v)).upcoming env ext v
            = readPart env ext (streamBehind env ext es) v := by
          rw [← h_stream, CsvVars.upcoming, CsvVars.skipTo, readPart, h_line, Int.sub_zero,
            Int.zero_add]
        dsimp only
        rw [h_part]
        exact ⟨h_splits.popped.more _, rfl⟩
    | flushPop r part line =>
      simp only [readCSV] at hop
      cases hop
      obtain ⟨h_size, h_tuples, h_splits, h_stream, h_fits⟩ := h_inv
      have h_parts : Event.taken partQueue (es ++ [.popped 0 v (m.pool v)])
          = Event.taken partQueue es := Event.taken_popped_of_ne (by decide)
      rw [ReadCSV.Packs, CsvVars.Pending, linesTaken, streamBehind, h_parts]
      refine ⟨rfl, ?_, h_stream, h_fits⟩
      -- the fresh buffer holds nothing yet
      refine h_splits.popped.imp fun texts h_nil => ?_
      rw [h_nil, CsvVars.Fills, h_size, h_tuples]
      exact Filled.empty (h_full.popped (h_free rfl))
    | next r part =>
      simp only [readCSV] at hop
      repeat' split at hop
      all_goals cases hop
    | _ => cases hop
  | @push es l m q v l' _ hop h_good ih =>
    have h_inv := ih h_full.of_append fun line hl => h_short line (mem_linesTaken_concat _ hl)
    cases l with
    | flushPush r part line =>
      simp only [readCSV] at hop
      cases hop
      obtain ⟨h_size, h_tuples, h_splits, h_stream, h_fits⟩ := h_inv
      rw [ReadCSV.Packs, CsvVars.Pending, linesTaken, streamBehind, Event.taken_pushed]
      exact ⟨h_size, h_tuples, h_splits.pushed, h_stream, h_fits⟩
    | lastPush r =>
      simp only [readCSV] at hop
      cases hop
      rw [ReadCSV.Packs, linesTaken, Event.taken_pushed]
      exact h_inv.pushed
    | start => simp only [readCSV] at hop; split at hop <;> cases hop
    | next r part =>
      simp only [readCSV] at hop
      repeat' split at hop
      all_goals cases hop
    | _ => cases hop
  | @work es l m bs f _ hop h_good ih =>
    have h_inv := ih h_full h_short
    cases l with
    | takePart r part =>
      simp only [readCSV] at hop
      cases hop
      exact h_inv
    | next r part => exact h_inv.next h_short hop
    -- the line that did not fit fits now, for the buffer is empty
    | copy r part line =>
      simp only [readCSV] at hop
      cases hop
      obtain ⟨h_ptr, h_pending⟩ := h_inv
      apply h_pending.copyLine
      rw [h_ptr, Nat.zero_add]
      exact h_pending.2.2
    | last r =>
      -- the last header announces the texts
      simp only [readCSV] at hop
      cases hop
      refine h_inv.imp fun texts h_fills => ?_
      change HoldsTexts texts ((m.write r.curBid _).pool r.curBid)
      rw [Memory.write_pool_self]
      exact h_fills.holds
    | start => simp only [readCSV] at hop; split at hop <;> cases hop
    | _ => cases hop

/-- What has been pushed are the first of the lines. -/
theorem ReadCSV.Packs.exists_groups {l : ReadCSV} (h : l.Packs env ext es p) :
    ∃ groups, textPacking.Packs es groups ∧ groups.flatten <+: linesTaken env ext es := by
  cases l with
  | start =>
    obtain ⟨h_out, -⟩ := h
    exact ⟨[], by rw [Packing.Packs, textPacking, h_out]; exact .nil, List.nil_prefix⟩
  | popPart r => exact h.1.packs
  | takePart r part => exact h.1.packs
  | next r part => exact h.1.packs
  | flushPush r part line => exact h.2.2.1.packs
  | flushPop r part line => exact h.2.2.1.packs
  | copy r part line => exact h.2.1.packs
  | last r => exact Packing.Splits.packs h
  | lastPush r => exact Packing.Splits.packs h
  | done => exact Packing.Splits.packs h

/-- A line that is copied ends inside the vector. -/
theorem ReadCSV.Packs.extent_le {l : ReadCSV} (h : l.Packs env ext es p) :
    l.extent env ext ≤ sizeofHeader + env.payloadSize := by
  cases l with
  | next r part =>
    simp only [ReadCSV.extent]
    split
    · split
      · exact Nat.zero_le _
      · split
        · exact Nat.le_add_right _ _
        · next h_room => omega
    · exact Nat.zero_le _
  | copy r part line =>
    obtain ⟨h_ptr, -, -, h_fits⟩ := h
    rw [ReadCSV.extent, h_ptr, Nat.add_zero]
    exact Nat.add_le_add_left h_fits _
  | last r => exact Nat.le_add_right _ _
  | _ => exact Nat.zero_le _

/-- What a read thread has still to do before it waits for its next partition: every line that is
left on its stream may need a new buffer. -/
def ReadCSV.rank (_ : ℤ → Buffer) : ReadCSV → ℕ
  | .start => 1
  | .popPart _ => 0
  | .takePart r _ => 4 * r.file.length + 2
  | .next r _ => 4 * r.file.length + 1
  | .flushPush r _ _ => 4 * r.file.length + 4
  | .flushPop r _ _ => 4 * r.file.length + 3
  | .copy r _ _ => 4 * r.file.length + 2
  | .last _ => 2
  | .lastPush _ => 1
  | .done => 0

/-- **The thread stops** between two partitions, and after the last. -/
theorem readCSV_lowers {σ : Type} (thr : ℕ) (m : Memory Buffer σ) (l : ReadCSV) :
    Lowers (· = partQueue) ReadCSV.rank l m (readCSV env ext thr l) := by
  cases l with
  | start =>
    simp only [readCSV]
    split
    · exact .inr fun v => Nat.zero_lt_one
    · exact trivial
  | popPart r => exact .inl rfl
  | takePart r part =>
    have h_le : (r.skipTo (csvStartOff env ext part)).file.length ≤ r.file.length :=
      length_skipLines _ _
    simp only [readCSV, Lowers, ReadCSV.rank]
    omega
  | next r part =>
    simp only [readCSV]
    split
    · split
      · exact Nat.succ_pos _
      · next text rest h_line =>
        -- the line that is read pays for the copy and for a buffer
        have h_less := length_of_getline h_line
        split
        · simp only [Lowers, ReadCSV.rank]
          omega
        · simp only [Lowers, CsvVars.copyLine, ReadCSV.rank]
          omega
    · exact Nat.succ_pos _
  | flushPush r part line => exact Nat.lt_succ_self _
  | flushPop r part line => exact .inr fun v => Nat.lt_succ_self _
  | copy r part line => exact Nat.lt_succ_self _
  | last r => exact Nat.lt_succ_self _
  | lastPush r => exact Nat.lt_succ_self _
  | done => exact trivial

/-- It pauses for the next partition, and stops when there is none. -/
theorem readCSV_pauses {thr : ℕ} {σ : Type} (h_opens : ext.fileOpens thr = true) {l : ReadCSV}
    (h : (readCSV (σ := σ) env ext thr l).Pauses (· = partQueue)) :
    (∃ r, l = .popPart r) ∨ l = .done := by
  cases l with
  | start =>
    rw [readCSV, if_pos h_opens] at h
    cases h
  | popPart r => exact .inl ⟨r, rfl⟩
  | next r part =>
    simp only [readCSV] at h
    repeat' split at h
    all_goals exact h.elim
  | flushPop r part line => cases h
  | done => exact .inr rfl
  | _ => exact h.elim

/-- **A read thread can always read a partition**, and stop when there is no other one. -/
theorem exists_readCSV_done {thr : ℕ} (h_opens : ext.fileOpens thr = true) {part : ℤ}
    (h_part : part ≠ marker) :
    ∃ (m₀ m : Memory Buffer Sockets) (es : List (Event Buffer)),
      Solo 4 ReadCSV.held (readCSV env ext thr) (fun _ => False) .start m₀ es .done m ∧
        Takes 0 (Full env) es ∧ Event.taken partQueue es = [part] := by
  let m₀ : Memory Buffer Sockets := ⟨fun _ => emptyBuffer env, fun _ => []⟩
  have h_start : Solo 4 ReadCSV.held (readCSV env ext thr) (fun _ => False) .start m₀ []
      .start m₀ := .start
  have h_empty : Full env (emptyBuffer env) := List.length_replicate
  -- the thread takes a buffer and the partition, and reads until it pauses
  have h_buffer := h_start.pop (v := 1) (if_pos h_opens) (fun _ => by decide)
    (fun _ _ => Multiset.notMem_zero _) id
  have h_taken := h_buffer.pop (q := partQueue) (v := part) rfl (fun h => by cases h)
    (fun h => absurd h (by decide)) id
  obtain ⟨es, l, m, h_run, h_pause, h_pops⟩ := h_taken.exists_pause
    (fun l m => readCSV_lowers thr m l) (fun _ _ _ _ => rfl) (emptyBuffer env)
  have h_full : Takes 0 (Full env) (([] ++ [.popped 0 1 (m₀.pool 1)])
      ++ [.popped partQueue part (m₀.pool part)] ++ es) := by
    refine .append ((Takes.pop nofun h_empty).pop_of_ne (by decide))
      (.of_popped fun v c h_mem => ?_)
    rw [(h_pops 0 v c h_mem).2]
    exact h_empty
  have h_parts : Event.taken partQueue (([] ++ [.popped 0 1 (m₀.pool 1)])
      ++ [.popped partQueue part (m₀.pool part)] ++ es) = [part] := by
    have h_rest : Event.taken partQueue es = [] :=
      Event.taken_eq_nil fun q v c h_mem => (h_pops q v c h_mem).1
    rw [Event.taken, List.filterMap_append, ← Event.taken, ← Event.taken, h_rest,
      Event.taken_popped h_part, Event.taken_popped_of_ne (by decide), List.append_nil]
    rfl
  rcases readCSV_pauses h_opens h_pause with ⟨r, rfl⟩ | rfl
  · -- there is no other partition
    have h_last := h_run.pop (q := partQueue) (v := marker) rfl (fun h => by cases h)
      (fun h => absurd h (by decide)) id
    rw [if_pos rfl] at h_last
    refine ⟨m₀, _, _, ((h_last.work rfl id).push rfl id), (h_full.pop_of_ne (by decide)).pushed, ?_⟩
    rw [Event.taken_pushed, Event.taken_popped_marker, h_parts]
  · exact ⟨m₀, m, _, h_run, h_full, h_parts⟩

/-- Where the thread stops, all lines it has read are pushed. -/
theorem ReadCSV.Packs.all {thr : ℕ} {σ : Type} {l : ReadCSV} (h : l.Packs env ext es p)
    (h_stops : (readCSV (σ := σ) env ext thr l).Stops) :
    ∃ groups, textPacking.Packs es groups ∧ groups.flatten = linesTaken env ext es := by
  cases l with
  | start =>
    -- the file cannot be opened
    obtain ⟨h_out, h_taken⟩ := h
    exact ⟨[], by rw [Packing.Packs, textPacking, h_out]; exact .nil,
      by rw [linesTaken, h_taken]; rfl⟩
  | next r part =>
    simp only [readCSV] at h_stops
    repeat' split at h_stops
    all_goals exact h_stops.elim
  | done => exact Packing.Splits.packs_all h
  | _ => exact h_stops.elim

/-- **The lines are packed whole and in order.** In every run of a read thread whose lines each fit
a payload, no operation writes behind the end of the vector, every buffer pushed holds some lines
with their number in its header, and the buffers pushed hold the first of the lines read, all of
them when the thread stops; and only the queue of the partitions can make it wait without end. -/
theorem lines_packed {thr : ℕ} {m₀ m : Memory Buffer Sockets} {l : ReadCSV}
    (h : Solo 4 ReadCSV.held (readCSV env ext thr) (fun _ => False) .start m₀ es l m)
    (h_full : Takes 0 (Full env) es)
    (h_short : ∀ line ∈ linesTaken env ext es, line.length ≤ env.payloadSize) :
    l.extent env ext ≤ sizeofHeader + env.payloadSize ∧
      (∃ groups, List.Forall₂ HoldsTexts groups (Event.outputs 1 es) ∧
        groups.flatten <+: linesTaken env ext es) ∧
      ((readCSV (σ := Sockets) env ext thr l).Stops →
        ∃ groups, List.Forall₂ HoldsTexts groups (Event.outputs 1 es) ∧
          groups.flatten = linesTaken env ext es) ∧
      Lowers (· = partQueue) ReadCSV.rank l m (readCSV env ext thr l) := by
  have h_inv := readCSV_packs h h_full h_short
  exact ⟨h_inv.extent_le, h_inv.exists_groups, h_inv.all, readCSV_lowers thr m l⟩

/-- A payload of 4 KiB, in which 368 bytes are left behind as much as a header. -/
def roomyEnv : RuntimeEnv :=
  { smallEnv with bufferSize := 4, schema := [⟨.char, 1⟩] }

/-- A line of 150 bytes. -/
def longLine : List UInt8 := List.replicate 149 55 ++ [newline]

/-- A file of three such lines. -/
def threeLines : External where
  file := longLine ++ longLine ++ longLine
  codecs := storingCodecs

/-- Two lines go into a buffer, and the third one into another. -/
theorem lines_packed_roomyEnv :
    ∃ es m groups, Solo 4 ReadCSV.held (readCSV roomyEnv threeLines 0) (fun _ => False) .start
        (⟨fun _ => emptyBuffer roomyEnv, fun _ => []⟩ : Memory Buffer Sockets) es .done m ∧
      Takes 0 (Full roomyEnv) es ∧
      (Event.outputs 1 es).map (fun b => b.header.totalTuples) = [2, 1] ∧
      List.Forall₂ HoldsTexts groups (Event.outputs 1 es) ∧
      groups.flatten = [longLine, longLine, longLine] := by
  obtain ⟨es, l, m, h_solo, h_free, h_out, h_lines, rfl⟩ := exists_solo_of_replay 4 ReadCSV.held
    (readCSV roomyEnv threeLines 0) (fun _ => False) .start
    (⟨fun _ => emptyBuffer roomyEnv, fun _ => []⟩ : Memory Buffer Sockets) 20 [0, 0, 1, marker]
    (fun es l _ => (∀ c ∈ Event.inputs 0 es, c.payload.length = roomyEnv.payloadSize) ∧
      (Event.outputs 1 es).map (fun b => b.header.totalTuples) = [2, 1] ∧
      linesTaken roomyEnv threeLines es = [longLine, longLine, longLine] ∧ l = .done)
    (by decide +kernel)
  have h_short : ∀ line ∈ linesTaken roomyEnv threeLines es,
      line.length ≤ roomyEnv.payloadSize := by
    rw [h_lines]
    decide +kernel
  -- no line is longer than the payload, and the thread has stopped
  obtain ⟨-, -, h_all, -⟩ := lines_packed h_solo h_free h_short
  obtain ⟨groups, h_packs, h_flatten⟩ := h_all trivial
  exact ⟨es, m, groups, h_solo, h_free, h_out, h_packs, by rw [h_flatten, h_lines]⟩

/-- A payload of one tuple, which is smaller than a header. -/
def slimEnv : RuntimeEnv :=
  { smallEnv with bufferSize := 1, schema := [⟨.string, 1000⟩] }

/-- A table of two rows. -/
def twoRows : External where
  maxCtId := 1
  copyData _ _ := [[55, newline], [56, newline]]
  codecs := storingCodecs

end Csv

/-! ### `readPG` -/

section Postgres

variable (env : RuntimeEnv) (ext : External)

/-- The rows `COPY` delivers for a partition; an empty one would end the loop. -/
def pgRows (part : ℤ) : List (List UInt8) :=
  (ext.copyData (startOff ext.maxCtId env.readParallelism part)
    (endOff ext.maxCtId env.readParallelism (2 ^ 32 - 1) part)).takeWhile (· ≠ [])

/-- The rows a thread receives, for the partitions it has taken. -/
def rowsTaken (es : List (Event Buffer)) : List (List UInt8) :=
  (Event.taken partQueue es).flatMap (pgRows env ext)

/-- The end of what the next operation writes to the vector of the current buffer. -/
def ReadPG.extent : ReadPG → ℕ
  | .row r (text :: _) =>
    if text = [] then 0
    else if sizeofHeader + r.writePtr + text.length > env.bufferSize * 1024 then sizeofHeader
    else sizeofHeader + r.writePtr + text.length
  | .copy r text _ => sizeofHeader + r.writePtr + text.length
  | .last _ => sizeofHeader
  | _ => 0

/-- The buffer in hand holds the rows. -/
def PgVars.Fills (r : PgVars) (p : ℤ → Buffer) : List (List UInt8) → Prop :=
  Filled env r.writePtr r.sizeWritten r.tuplesPerBuffer (p r.curBid)

/-- The row in hand and those ahead are not in a buffer yet. -/
def RowPending (es : List (Event Buffer)) (InHand : List (List UInt8) → Prop)
    (row : List UInt8) (rows : List (List UInt8)) : Prop :=
  textPacking.Splits es InHand (rowsTaken env ext es) (row :: rows.takeWhile (· ≠ [])) ∧
    row.length ≤ env.payloadSize

/-- **Where the rows are** at each program point. -/
def ReadPG.Packs (es : List (Event Buffer)) (p : ℤ → Buffer) : ReadPG → Prop
  | .start => Event.outputs 1 es = [] ∧ Event.taken partQueue es = []
  | .popPart r => textPacking.Splits es (r.Fills env p) (rowsTaken env ext es) []
  | .row r rows =>
    textPacking.Splits es (r.Fills env p) (rowsTaken env ext es) (rows.takeWhile (· ≠ []))
  | .flushPush r text rows => r.sizeWritten = 0 ∧
      RowPending env ext es (fun texts => HoldsTexts texts (p r.curBid)) text rows
  | .flushPop r text rows => r.sizeWritten = 0 ∧
      RowPending env ext es (fun texts => texts = []) text rows
  | .copy r text rows => r.writePtr = 0 ∧ RowPending env ext es (r.Fills env p) text rows
  | .last r => textPacking.Splits es (r.Fills env p) (rowsTaken env ext es) []
  | .lastPush r =>
    textPacking.Splits es (fun texts => HoldsTexts texts (p r.curBid)) (rowsTaken env ext es) []
  | .done => textPacking.Splits es (fun texts => texts = []) (rowsTaken env ext es) []

variable {env ext} {es : List (Event Buffer)} {p p' : ℤ → Buffer}

/-- What has been received stays received. -/
theorem mem_rowsTaken_concat {row : List UInt8} (e : Event Buffer)
    (h : row ∈ rowsTaken env ext es) : row ∈ rowsTaken env ext (es ++ [e]) := by
  unfold rowsTaken Event.taken at h ⊢
  rw [List.filterMap_append, List.flatMap_append]
  exact List.mem_append_left _ h

/-- What is known of a thread is about the buffer it holds. -/
theorem ReadPG.Packs.congr {l : ReadPG} (h_own : ∀ b ∈ l.held, p' b = p b)
    (h : l.Packs env ext es p) : l.Packs env ext es p' := by
  cases l with
  | start => exact h
  | flushPop r row rows => exact h
  | done => exact h
  | popPart r => rwa [ReadPG.Packs, PgVars.Fills, h_own r.curBid (by simp [held])]
  | row r rows => rwa [ReadPG.Packs, PgVars.Fills, h_own r.curBid (by simp [held])]
  | flushPush r row rows => rwa [ReadPG.Packs, h_own r.curBid (by simp [held])]
  | copy r row rows => rwa [ReadPG.Packs, PgVars.Fills, h_own r.curBid (by simp [held])]
  | last r => rwa [ReadPG.Packs, PgVars.Fills, h_own r.curBid (by simp [held])]
  | lastPush r => rwa [ReadPG.Packs, h_own r.curBid (by simp [held])]

/-- A row that fits is copied. -/
theorem RowPending.copyRow {σ : Type} {r : PgVars} {row : List UInt8} {rows : List (List UInt8)}
    {m : Memory Buffer σ} (h : RowPending env ext es (r.Fills env m.pool) row rows)
    (h_room : r.writePtr + row.length ≤ env.payloadSize) :
    (r.copyRow row rows m).2.Packs env ext es (r.copyRow row rows m).1.pool := by
  refine h.1.next fun texts h_fills => ?_
  change Filled env _ _ _ ((m.write r.curBid _).pool r.curBid) _
  rw [Memory.write_pool_self]
  exact h_fills.copy h_room

/-- **The test of the loop** over the rows, where the limit is not beyond the vector. -/
theorem ReadPG.Packs.row {σ : Type} {r : PgVars} {rows : List (List UInt8)} {m : Memory Buffer σ}
    (h_limit : env.bufferSize * 1024 ≤ sizeofHeader + env.payloadSize)
    (h : (ReadPG.row r rows).Packs env ext es m.pool)
    (h_short : ∀ row ∈ rowsTaken env ext es, row.length ≤ env.payloadSize)
    {bs : List ℤ} {f : Memory Buffer σ → Memory Buffer σ × ReadPG}
    (hop : readPG env ext (.row r rows) = .work bs f) :
    (f m).2.Packs env ext es (f m).1.pool := by
  cases rows with
  | nil =>
    simp only [readPG] at hop
    cases hop
    exact h
  | cons row rows =>
    simp only [readPG] at hop
    split at hop
    · next h_nil =>
      -- the empty text ends the `COPY`
      cases hop
      rwa [ReadPG.Packs, List.takeWhile_cons_of_neg (by simp [h_nil])] at h
    · next h_row =>
      rw [ReadPG.Packs, List.takeWhile_cons_of_pos (by simp [h_row])] at h
      have h_fits : row.length ≤ env.payloadSize := by
        obtain ⟨groups, hand, -, -, h_items⟩ := h
        apply h_short
        rw [h_items]
        simp
      -- the buffer is pushed first if the row has no room in it
      split at hop
      · cases hop
        refine ⟨rfl, h.imp fun texts h_fills => ?_, h_fits⟩
        change HoldsTexts texts ((m.write r.curBid _).pool r.curBid)
        rw [Memory.write_pool_self]
        exact h_fills.holds
      · next h_room =>
        cases hop
        have h_pending : RowPending env ext es (r.Fills env m.pool) row rows := ⟨h, h_fits⟩
        apply h_pending.copyRow
        omega

/-- **Step lemma.** Every operation of a read thread keeps track of the rows. -/
theorem readPG_packs {σ : Type} {m₀ m : Memory Buffer σ} {l : ReadPG}
    (h_limit : env.bufferSize * 1024 ≤ sizeofHeader + env.payloadSize)
    (h : Solo 4 ReadPG.held (readPG env ext) (fun _ => False) .start m₀ es l m)
    (h_full : Takes 0 (Full env) es)
    (h_short : ∀ row ∈ rowsTaken env ext es, row.length ≤ env.payloadSize) :
    l.Packs env ext es m.pool := by
  induction h with
  | start => exact ⟨rfl, rfl⟩
  | others _ h_own ih => exact (ih h_full h_short).congr h_own
  | @pop es l m q k v _ hop h_free h_new h_good ih =>
    have h_inv := ih h_full.of_append fun row hr => h_short row (mem_rowsTaken_concat _ hr)
    cases l with
    | start =>
      simp only [readPG] at hop
      cases hop
      obtain ⟨h_out, h_taken⟩ := h_inv
      -- no partition has been taken
      have h_none : Event.taken partQueue (es ++ [.popped 0 v (m.pool v)]) = [] := by
        rw [Event.taken_popped_of_ne (by decide), h_taken]
      rw [ReadPG.Packs, rowsTaken, h_none]
      apply Packing.Splits.first
      · rw [Event.outputs_popped]
        exact h_out
      · exact Filled.empty (h_full.popped (h_free rfl))
    | popPart r =>
      simp only [readPG] at hop
      cases hop
      dsimp only
      -- the marker is no partition, and a partition adds the rows its query sends
      by_cases hv : v = marker
      · subst hv
        rw [if_pos rfl, ReadPG.Packs, rowsTaken, Event.taken_popped_marker]
        exact h_inv.popped
      · rw [if_neg hv, ReadPG.Packs, rowsTaken, Event.taken_popped hv, List.flatMap_append,
          List.flatMap_singleton]
        exact h_inv.popped.more _
    | flushPop r row rows =>
      simp only [readPG] at hop
      cases hop
      obtain ⟨h_size, h_splits, h_fits⟩ := h_inv
      have h_parts : Event.taken partQueue (es ++ [.popped 0 v (m.pool v)])
          = Event.taken partQueue es := Event.taken_popped_of_ne (by decide)
      rw [ReadPG.Packs, RowPending, rowsTaken, h_parts]
      refine ⟨rfl, h_splits.popped.imp fun texts h_nil => ?_, h_fits⟩
      rw [h_nil, PgVars.Fills, h_size]
      -- the fresh buffer holds nothing yet
      exact Filled.empty (h_full.popped (h_free rfl))
    | row r rows =>
      cases rows with
      | nil => simp only [readPG] at hop; cases hop
      | cons row rows =>
        simp only [readPG] at hop
        repeat' split at hop
        all_goals cases hop
    | _ => cases hop
  | @push es l m q v l' _ hop h_good ih =>
    have h_inv := ih h_full.of_append fun row hr => h_short row (mem_rowsTaken_concat _ hr)
    cases l with
    | flushPush r row rows =>
      simp only [readPG] at hop
      cases hop
      obtain ⟨h_size, h_splits, h_fits⟩ := h_inv
      rw [ReadPG.Packs, RowPending, rowsTaken, Event.taken_pushed]
      exact ⟨h_size, h_splits.pushed, h_fits⟩
    | lastPush r =>
      simp only [readPG] at hop
      cases hop
      rw [ReadPG.Packs, rowsTaken, Event.taken_pushed]
      exact h_inv.pushed
    | row r rows =>
      cases rows with
      | nil => simp only [readPG] at hop; cases hop
      | cons row rows =>
        simp only [readPG] at hop
        repeat' split at hop
        all_goals cases hop
    | _ => cases hop
  | @work es l m bs f _ hop h_good ih =>
    have h_inv := ih h_full h_short
    cases l with
    | row r rows => exact ReadPG.Packs.row h_limit h_inv h_short hop
    | copy r row rows =>
      simp only [readPG] at hop
      cases hop
      -- the row that did not fit fits now, for the buffer is empty
      obtain ⟨h_ptr, h_pending⟩ := h_inv
      apply h_pending.copyRow
      rw [h_ptr, Nat.zero_add]
      exact h_pending.2
    | last r =>
      -- the last header announces the texts
      simp only [readPG] at hop
      cases hop
      refine h_inv.imp fun texts h_fills => ?_
      change HoldsTexts texts ((m.write r.curBid _).pool r.curBid)
      rw [Memory.write_pool_self]
      exact h_fills.holds
    | _ => cases hop

/-- What has been pushed are the first of the rows. -/
theorem ReadPG.Packs.exists_groups {l : ReadPG} (h : l.Packs env ext es p) :
    ∃ groups, textPacking.Packs es groups ∧ groups.flatten <+: rowsTaken env ext es := by
  cases l with
  | start =>
    obtain ⟨h_out, -⟩ := h
    exact ⟨[], by rw [Packing.Packs, textPacking, h_out]; exact .nil, List.nil_prefix⟩
  | flushPush r row rows => exact h.2.1.packs
  | flushPop r row rows => exact h.2.1.packs
  | copy r row rows => exact h.2.1.packs
  | _ => exact Packing.Splits.packs h

/-- A row that is copied ends inside the vector. -/
theorem ReadPG.Packs.extent_le {l : ReadPG}
    (h_limit : env.bufferSize * 1024 ≤ sizeofHeader + env.payloadSize)
    (h : l.Packs env ext es p) : l.extent env ≤ sizeofHeader + env.payloadSize := by
  cases l with
  | row r rows =>
    cases rows with
    | nil => exact Nat.zero_le _
    | cons row rows =>
      simp only [ReadPG.extent]
      split
      · exact Nat.zero_le _
      · split
        · exact Nat.le_add_right _ _
        · -- the row fits into what is left of `buffer_size`, and that is no more than the vector
          next h_room => omega
  | copy r row rows =>
    obtain ⟨h_ptr, -, h_fits⟩ := h
    rw [ReadPG.extent, h_ptr, Nat.add_zero]
    exact Nat.add_le_add_left h_fits _
  | last r => exact Nat.le_add_right _ _
  | _ => exact Nat.zero_le _

/-- What a read thread has still to do before it waits for its next partition. -/
def ReadPG.rank (_ : ℤ → Buffer) : ReadPG → ℕ
  | .start => 1
  | .popPart _ => 0
  | .row _ rows => 4 * rows.length + 1
  | .flushPush _ _ rows => 4 * rows.length + 4
  | .flushPop _ _ rows => 4 * rows.length + 3
  | .copy _ _ rows => 4 * rows.length + 2
  | .last _ => 2
  | .lastPush _ => 1
  | .done => 0

/-- **The thread stops** between two partitions, and after the last. -/
theorem readPG_lowers {σ : Type} (m : Memory Buffer σ) (l : ReadPG) :
    Lowers (· = partQueue) ReadPG.rank l m (readPG env ext l) := by
  cases l with
  | start => exact .inr fun v => Nat.zero_lt_one
  | popPart r => exact .inl rfl
  | row r rows =>
    cases rows with
    | nil => exact Nat.succ_pos _
    | cons row rows =>
      simp only [readPG]
      split
      · exact Nat.succ_pos _
      · split
        · simp only [Lowers, ReadPG.rank, List.length_cons]
          omega
        · simp only [Lowers, PgVars.copyRow, ReadPG.rank, List.length_cons]
          omega
  | flushPush r row rows => exact Nat.lt_succ_self _
  | flushPop r row rows => exact .inr fun v => Nat.lt_succ_self _
  | copy r row rows => exact Nat.lt_succ_self _
  | last r => exact Nat.lt_succ_self _
  | lastPush r => exact Nat.lt_succ_self _
  | done => exact trivial

/-- Where the thread stops, all rows it has received are pushed. -/
theorem ReadPG.Packs.all {σ : Type} {l : ReadPG} (h : l.Packs env ext es p)
    (h_stops : (readPG (σ := σ) env ext l).Stops) :
    ∃ groups, textPacking.Packs es groups ∧ groups.flatten = rowsTaken env ext es := by
  cases l with
  | row r rows =>
    cases rows with
    | nil => exact h_stops.elim
    | cons row rows =>
      simp only [readPG] at h_stops
      repeat' split at h_stops
      all_goals exact h_stops.elim
  | done => exact Packing.Splits.packs_all h
  | _ => exact h_stops.elim

variable (env ext) in
/-- A run of a read thread in which no operation writes behind the end of the vector, the buffers
pushed hold the first of the rows received with their number in the header, and all of them when the
thread stops; and only the queue of the partitions can make it wait without end. -/
structure RowsPacked (es : List (Event Buffer)) (l : ReadPG) (m : Memory Buffer Sockets) : Prop where
  inside : l.extent env ≤ sizeofHeader + env.payloadSize
  groups : ∃ groups, List.Forall₂ HoldsTexts groups (Event.outputs 1 es) ∧
    groups.flatten <+: rowsTaken env ext es
  all : (readPG (σ := Sockets) env ext l).Stops →
    ∃ groups, List.Forall₂ HoldsTexts groups (Event.outputs 1 es) ∧
      groups.flatten = rowsTaken env ext es
  lowers : Lowers (· = partQueue) ReadPG.rank l m (readPG env ext l)

/-- The limit is the size of the vector, give or take what the tuples leave of it. -/
theorem limit_le_iff (env : RuntimeEnv) :
    env.bufferSize * 1024 ≤ sizeofHeader + env.payloadSize ↔
      env.bufferSize * 1024 % env.tupleSize ≤ sizeofHeader := by
  have h_div := Nat.div_add_mod (env.bufferSize * 1024) env.tupleSize
  have h_payload : env.payloadSize = env.tupleSize * (env.bufferSize * 1024 / env.tupleSize) :=
    Nat.mul_comm _ _
  omega

/-- Two rows: one that fills the payload, and one byte. -/
def fillingRows (env : RuntimeEnv) : List (List UInt8) :=
  [List.replicate env.payloadSize 55, [newline]]

/-- A table of these two rows. -/
def fillingTable (env : RuntimeEnv) : External where
  copyData _ _ := fillingRows env
  codecs := storingCodecs

/-- A buffer that holds at least one tuple has a payload. -/
theorem payloadSize_pos {env : RuntimeEnv} (h_pos : 1 ≤ env.tuplesPerBuffer) :
    1 ≤ env.payloadSize := by
  have h_size : env.tupleSize ≠ 0 := by
    intro h_zero
    have h_none : env.tuplesPerBuffer = 0 := by
      change env.bufferSize * 1024 / env.tupleSize = 0
      rw [h_zero, Nat.div_zero]
    omega
  exact Nat.mul_pos h_pos (Nat.pos_of_ne_zero h_size)

/-- Where the limit is beyond the vector, a thread that has copied the first row is about to write
the second one behind the end. -/
theorem filling_run {env : RuntimeEnv} (h_pos : 1 ≤ env.payloadSize)
    (h_over : sizeofHeader + env.payloadSize < env.bufferSize * 1024) :
    ∃ (m : Memory Buffer Sockets) (es : List (Event Buffer)) (l : ReadPG),
      Solo 4 ReadPG.held (readPG env (fillingTable env)) (fun _ => False) .start
        ⟨fun _ => emptyBuffer env, fun _ => []⟩ es l m ∧
      Event.inputs 0 es = [emptyBuffer env] ∧ Event.taken partQueue es = [0] ∧
      l.extent env = sizeofHeader + env.payloadSize + 1 := by
  have h_first : List.replicate env.payloadSize (55 : UInt8) ≠ [] := by
    simpa using Nat.ne_of_gt h_pos
  have h_room : ¬ sizeofHeader + 0 + (List.replicate env.payloadSize (55 : UInt8)).length
      > env.bufferSize * 1024 := by
    rw [List.length_replicate]
    omega
  -- the thread takes a buffer and a partition, and copies the first row
  have h_start : Solo 4 ReadPG.held (readPG env (fillingTable env)) (fun _ => False) .start
      (⟨fun _ => emptyBuffer env, fun _ => []⟩ : Memory Buffer Sockets) [] .start _ := .start
  have h_buffer := h_start.pop (q := 0) (v := 0) rfl (fun _ => by decide)
    (fun _ _ => Multiset.notMem_zero _) id
  have h_part := h_buffer.pop (q := partQueue) (v := 0) rfl (fun h => by cases h)
    (fun h => absurd h (by decide)) id
  have h_row : readPG (σ := Sockets) env (fillingTable env) (.row ⟨0, 0, 0, 0⟩ (fillingRows env))
      = .work [0] (PgVars.copyRow ⟨0, 0, 0, 0⟩ (List.replicate env.payloadSize 55)
        [[newline]]) := by
    rw [fillingRows, readPG, if_neg h_first, if_neg h_room]
  refine ⟨_, _, _, h_part.work h_row id, rfl, rfl, ?_⟩
  change (if [newline] = [] then 0 else
    if sizeofHeader + (0 + (List.replicate env.payloadSize (55 : UInt8)).length) + 1
      > env.bufferSize * 1024 then sizeofHeader
    else sizeofHeader + (0 + (List.replicate env.payloadSize (55 : UInt8)).length) + 1) = _
  rw [List.length_replicate, Nat.zero_add, if_neg (List.cons_ne_nil _ _), if_neg (by omega)]

/-- Both rows fit a payload, and the buffer is one of the pool. -/
theorem rows_filling {env : RuntimeEnv} (h_pos : 1 ≤ env.payloadSize)
    (h_taken : Event.taken partQueue es = [0]) :
    ∀ row ∈ rowsTaken env (fillingTable env) es, row.length ≤ env.payloadSize := by
  intro row hr
  rw [rowsTaken, h_taken, List.flatMap_singleton] at hr
  have h_mem : row ∈ fillingRows env := (List.takeWhile_sublist _).subset hr
  rw [fillingRows, List.mem_pair] at h_mem
  rcases h_mem with rfl | rfl
  · rw [List.length_replicate]
  · exact h_pos

theorem takes_filling {env : RuntimeEnv} (h_free : Event.inputs 0 es = [emptyBuffer env]) :
    Takes 0 (Full env) es := by
  intro c hc
  rw [h_free, List.mem_singleton] at hc
  rw [hc]
  exact List.length_replicate

/-- **The rows stay inside the buffers** exactly if what whole tuples leave of `buffer_size * 1024`
is not more than a header: then every run packs its rows, whatever they are. -/
theorem rows_packed_iff (env : RuntimeEnv) (h_pos : 1 ≤ env.tuplesPerBuffer) :
    (∀ (ext : External) (m₀ m : Memory Buffer Sockets) (es : List (Event Buffer)) (l : ReadPG),
      Solo 4 ReadPG.held (readPG env ext) (fun _ => False) .start m₀ es l m →
      Takes 0 (Full env) es → (∀ row ∈ rowsTaken env ext es, row.length ≤ env.payloadSize) →
      RowsPacked env ext es l m) ↔
    env.bufferSize * 1024 % env.tupleSize ≤ sizeofHeader := by
  rw [← limit_le_iff]
  constructor
  · intro h
    by_contra h_over
    -- rows that fill the payload and one of a single byte behind them
    have h_payload := payloadSize_pos h_pos
    obtain ⟨m, es, l, h_solo, h_free, h_taken, h_extent⟩ :=
      filling_run h_payload (Nat.lt_of_not_le h_over)
    have h_inside := (h _ _ m es l h_solo (takes_filling h_free)
      (rows_filling h_payload h_taken)).inside
    rw [h_extent] at h_inside
    exact absurd h_inside (Nat.not_succ_le_self _)
  · intro h_limit ext m₀ m es l h_solo h_full h_short
    have h_inv := readPG_packs h_limit h_solo h_full h_short
    exact ⟨h_inv.extent_le h_limit, h_inv.exists_groups, h_inv.all, readPG_lowers m l⟩

/-- Two rows go through a buffer of one tuple. -/
theorem rows_packed_iff_slimEnv :
    ∃ es m groups, Solo 4 ReadPG.held (readPG slimEnv twoRows) (fun _ => False) .start
        (⟨fun _ => emptyBuffer slimEnv, fun _ => []⟩ : Memory Buffer Sockets) es .done m ∧
      Takes 0 (Full slimEnv) es ∧ (Event.outputs 1 es).length = 3 ∧
      List.Forall₂ HoldsTexts groups (Event.outputs 1 es) ∧
      groups.flatten = [[55, newline], [56, newline]] := by
  obtain ⟨es, l, m, h_solo, h_free, h_out, h_rows, rfl⟩ := exists_solo_of_replay 4 ReadPG.held
    (readPG slimEnv twoRows) (fun _ => False) .start
    (⟨fun _ => emptyBuffer slimEnv, fun _ => []⟩ : Memory Buffer Sockets) 20 [0, 0, 1, 2, marker]
    (fun es l _ => (∀ c ∈ Event.inputs 0 es, c.payload.length = slimEnv.payloadSize) ∧
      (Event.outputs 1 es).length = 3 ∧
      rowsTaken slimEnv twoRows es = [[55, newline], [56, newline]] ∧ l = .done)
    (by decide +kernel)
  have h_packed := (rows_packed_iff slimEnv (by decide)).mpr (by decide) _ _ _ _ _ h_solo h_free
    (by rw [h_rows]; decide)
  obtain ⟨groups, h_packs, h_flatten⟩ := h_packed.all trivial
  exact ⟨es, m, groups, h_solo, h_free, h_out, h_packs, by rw [h_flatten, h_rows]⟩

/-- A row of 4100 bytes: one fits into 8 KiB, and the limit is beyond the vector. -/
def wideRowEnv : RuntimeEnv :=
  { smallEnv with bufferSize := 8, schema := [⟨.string, 4100⟩] }

/-- There the second of two rows is written behind the end of the vector. -/
theorem rows_not_packed :
    ¬ ∀ (env : RuntimeEnv), 1 ≤ env.tuplesPerBuffer →
      ∀ (ext : External) (m₀ m : Memory Buffer Sockets) (es : List (Event Buffer)) (l : ReadPG),
      Solo 4 ReadPG.held (readPG env ext) (fun _ => False) .start m₀ es l m →
      Takes 0 (Full env) es → (∀ row ∈ rowsTaken env ext es, row.length ≤ env.payloadSize) →
      RowsPacked env ext es l m := by
  intro h
  have h_pos : 1 ≤ wideRowEnv.payloadSize := by decide
  obtain ⟨m, es, l, h_solo, h_free, h_taken, h_extent⟩ := filling_run h_pos (by decide)
  refine absurd (h wideRowEnv (by decide) _ _ m es l h_solo ?_ ?_).inside ?_
  · exact takes_filling h_free
  · exact rows_filling h_pos h_taken
  · rw [h_extent]
    exact Nat.not_succ_le_self _

end Postgres

end Xdbc.Server
