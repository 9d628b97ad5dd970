import Xdbc.Server.Delivery
import Xdbc.Server.Files
import Xdbc.Server.Progress
import Xdbc.Server.Reading
import Xdbc.Pipeline.Termination

/-!
# The server completes

Every step of the server is paid for. A queued partition pays for the lines, rows or files a read
thread still takes from its source, and each of these for the buffer it may fill. A buffer on the way
to the deserialization threads pays for its rows: a row in text has at least one byte, so there are
at most as many as the payload has bytes (`deserializeRow_pos`); the rows of a Parquet file are
bounded because a payload has room for finitely many files.

So no run is longer than some bound, and since the server does not lock up, a run that cannot go on
has ended (`server_completes`).
-/

namespace Xdbc.Server

open Bytes Pipeline

/-- The price of an item in a queue of the server, where `w` is that of a buffer on the way to the
deserialization threads and `part` that of a partition. -/
def serverWeight (w : ℕ) (part : ℤ → ℕ) : ℕ → ℤ → ℕ
  | 1, _ => w
  | 2, _ => 8
  | 3, _ => 3
  | 4, p => part p
  | _, _ => 0

/-! ### Compressing and sending -/

/-- The price of a compression thread. -/
def Comp.price : Comp → ℕ
  | .popOut _ => 8
  | .compress _ _ => 7
  | .pushIn _ _ => 6
  | .pushOut _ _ => 6
  | .forward _ => 5
  | .freeOut _ => 2
  | .freeIn _ => 2
  | .popIn => 1
  | .done => 0

/-- The price of a send thread. -/
def Send.price : Send → ℕ
  | .write _ _ => 3
  | .free _ _ => 2
  | .popIn _ => 1
  | .done => 0
  | .boostError _ => 0

/-- Every payload has the size the schema asks for. -/
def FullPool (env : RuntimeEnv) {σ : Type} (m : Memory Buffer σ) : Prop :=
  ∀ b, Full env (m.pool b)

section Shared

variable {σ : Type} {env : RuntimeEnv} {ext : External} {w : ℕ} {part : ℤ → ℕ}

theorem compress_descends (bad : Comp → Prop) (l : Comp) :
    Descends (σ := σ) 5 (serverWeight w part) (FullPool env) (fun _ => True) bad Comp.price l
      (compress env ext l) := by
  cases l with
  | popIn =>
    refine ⟨by decide, fun v _ => ⟨trivial, ?_⟩⟩
    dsimp only
    -- the marker, a buffer to forward, or one to compress
    split
    · exact Nat.succ_pos _
    · split
      · exact (show 5 < 1 + 8 by decide)
      · exact (show 8 < 1 + 8 by decide)
  | forward b => exact ⟨by decide, fun _ => ⟨trivial, show 1 + 3 < 5 by decide⟩⟩
  | popOut b => exact ⟨by decide, fun v _ => ⟨trivial, show 7 < 8 by decide⟩⟩
  | compress b o =>
    intro m h_full _
    obtain ⟨h_in, h_out⟩ := compressInto_full ext.codecs (h_full b) (h_full o)
    refine ⟨full_write (full_write h_full _ h_in) _ h_out, trivial, ?_⟩
    dsimp only
    split <;> exact Nat.lt_succ_self 6
  | pushIn b o => exact ⟨by decide, fun _ => ⟨trivial, show 2 + 3 < 6 by decide⟩⟩
  | freeOut o => exact ⟨by decide, fun _ => ⟨trivial, show 1 + 0 < 2 by decide⟩⟩
  | pushOut b o => exact ⟨by decide, fun _ => ⟨trivial, show 2 + 3 < 6 by decide⟩⟩
  | freeIn b => exact ⟨by decide, fun _ => ⟨trivial, show 1 + 0 < 2 by decide⟩⟩
  | done => trivial

theorem send_descends (thr : ℕ) (bad : Send → Prop) (l : Send) :
    Descends 5 (serverWeight w part) (FullPool env) (fun _ => True) bad Send.price l
      (send ext thr l) := by
  cases l with
  | popIn j =>
    refine ⟨by decide, fun v _ => ⟨trivial, ?_⟩⟩
    dsimp only
    split
    · exact Nat.succ_pos _
    · exact (show 3 < 1 + 3 by decide)
  | write j b =>
    simp only [send]
    split
    · exact fun m h_full _ => ⟨h_full, trivial, Nat.succ_pos _⟩
    · exact fun m h_full _ => ⟨h_full, trivial, Nat.lt_succ_self 2⟩
  | free j b => exact ⟨by decide, fun _ => ⟨trivial, show 1 + 0 < 2 by decide⟩⟩
  | done => trivial
  | boostError b => trivial

end Shared

/-! ### Deserializing -/

/-- The price of a buffer with at most `n` rows. -/
def inputPrice (n : ℕ) : ℕ := 11 * n + 10

/-- An exception or a null pointer has ended the thread. -/
def Deser.Thrown : Deser → Prop
  | .thrown _ _ => True
  | _ => False

/-- An exception has ended the thread. -/
def DeserPQ.Thrown : DeserPQ → Prop
  | .thrown _ _ => True
  | _ => False

section Text

variable (env : RuntimeEnv)

/-- The price of a thread that deserializes text: what is left of the payload bounds the number of
rows. -/
def Deser.price : Deser → ℕ
  | .start => 12
  | .skipPush _ => 21
  | .popIn _ => 11
  | .row d => 11 * (env.payloadSize - d.readOffset) + 13
  | .flushPush d => 11 * (env.payloadSize - d.readOffset) + 23
  | .flushPop d => 11 * (env.payloadSize - d.readOffset) + 14
  | .freeIn _ => 12
  | .nextIn _ => 11
  | .rest _ => 10
  | .restPush _ => 9
  | .done _ => 0
  | .thrown _ _ => 0

variable {env} {ext : External} {σ : Type}

/-- A round is paid for by the bytes of its row. -/
theorem DeserVars.step_price (X : TextSource) (h_schema : env.schema ≠ []) (d : DeserVars)
    {m : Memory Buffer σ} (h_full : FullPool env m) (h_not : ¬ (d.step X env ext m).2.Thrown) :
    (d.step X env ext m).2.price env < 11 * (env.payloadSize - d.readOffset) + 13 := by
  revert h_not
  unfold step
  dsimp only
  split
  · split
    · exact fun h_not => absurd trivial h_not
    · next len payload h_row =>
      -- the row has at least one byte, and the bytes are behind the read offset
      obtain ⟨h_pos, h_ne⟩ := deserializeRow_pos h_schema h_row
      have h_lt : d.readOffset < env.payloadSize := by
        have h_drop := List.length_pos_of_ne_nil h_ne
        rw [List.length_drop, h_full d.inBid] at h_drop
        omega
      split
      · exact fun _ => by simp only [Deser.price]; omega
      · split
        · split
          · split
            · exact fun h_not => absurd trivial h_not
            · exact fun _ => by simp only [Deser.price]; omega
          · exact fun _ => by simp only [Deser.price]; omega
        · exact fun _ => by simp only [Deser.price]; omega
  · exact fun _ => by simp only [Deser.price]; omega

theorem deserializeText_descends (X : TextSource) (h_schema : env.schema ≠ []) {part : ℤ → ℕ}
    (bad : Deser → Prop) (h_bad : ∀ l, Deser.Thrown l → bad l) (l : Deser) :
    Descends (σ := σ) 5 (serverWeight (inputPrice env.payloadSize) part) (FullPool env)
      (fun _ => True) bad (Deser.price env) l (deserializeText X env ext l) := by
  cases l with
  | start =>
    simp only [deserializeText]
    -- skipped, the text is passed on, else it costs one step a row
    split
    · refine ⟨by decide, fun v _ => ⟨trivial, ?_⟩⟩
      dsimp only
      split <;> simp only [Deser.price, serverWeight, inputPrice] <;> omega
    · exact ⟨by decide, fun v _ => ⟨trivial, show 11 < 12 + 0 by decide⟩⟩
  | skipPush b => exact ⟨by decide, fun _ => ⟨trivial, show 12 + 8 < 21 by decide⟩⟩
  | popIn o =>
    refine ⟨by decide, fun v _ => ⟨trivial, ?_⟩⟩
    simp only [Deser.price, serverWeight, inputPrice]
    omega
  -- a row, or the step after the last one
  | row d =>
    intro m h_full h_not
    exact ⟨d.step_full X h_full, trivial,
      d.step_price X h_schema h_full fun h_thrown => h_not (h_bad _ h_thrown)⟩
  | flushPush d =>
    exact ⟨by decide, fun _ => ⟨trivial, by simp only [Deser.price, serverWeight]; omega⟩⟩
  | flushPop d =>
    exact ⟨by decide, fun v _ => ⟨trivial, by simp only [Deser.price, serverWeight]; omega⟩⟩
  | freeIn d => exact ⟨by decide, fun _ => ⟨trivial, show 11 + 0 < 12 by decide⟩⟩
  | nextIn d =>
    refine ⟨by decide, fun v _ => ⟨trivial, ?_⟩⟩
    dsimp only
    split <;> simp only [Deser.price, serverWeight, inputPrice] <;> omega
  | rest d =>
    simp only [deserializeText]
    split
    · -- the last buffer of the text, or the batch that Arrow makes of it
      exact fun m h_full _ => ⟨full_write h_full _ (h_full d.outBid), trivial, Nat.lt_succ_self 9⟩
    · split
      · intro m h_full h_not
        revert h_not
        dsimp only
        split
        · exact fun h_not => absurd (h_bad (.thrown none d.outBid) trivial) h_not
        · exact fun _ => ⟨full_write h_full _ ((length_put _ _ _).trans (h_full d.outBid)), trivial,
            Nat.lt_succ_self 9⟩
      · exact fun m h_full _ => ⟨h_full, trivial, Nat.succ_pos 9⟩
  | restPush d => exact ⟨by decide, fun _ => ⟨trivial, show 0 + 8 < 9 by decide⟩⟩
  | done o => trivial
  | thrown i o => exact fun m _ h_not => absurd (h_bad (.thrown i o) trivial) h_not

end Text

section Parquet

variable (env : RuntimeEnv) (N : ℕ)

/-- The price of a thread that deserializes Parquet files. -/
def DeserPQ.price : DeserPQ → ℕ
  | .start => 12
  | .skipPush _ => 21
  | .popOut _ => 11 * N + 15
  | .openStream _ => 11 * N + 14
  | .row d => 11 * d.rows.length + 13
  | .flushPush d => 11 * d.rows.length + 23
  | .flushPop d => 11 * d.rows.length + 14
  | .freeIn _ => 12
  | .nextIn _ => 11
  | .rest _ => 10
  | .restPush _ => 9
  | .done _ => 0
  | .thrown _ _ => 0

variable {env N} {ext : External} {σ : Type}

/-- The cells of a row are written in place. -/
theorem length_writeParquetRow (k off : ℕ) (schema : List SchemaAttribute)
    (row : List (List UInt8)) (dst : List UInt8) :
    (writeParquetRow env k schema row off dst).length = dst.length := by
  induction schema generalizing row off dst with
  | nil => rfl
  | cons a schema ih =>
    cases row with
    | nil => rfl
    | cons value row =>
      simp only [writeParquetRow]
      rw [ih]
      split
      · unfold writeParquetField
        split <;> simp only [length_put]
      · rfl

theorem deserializePQ_descends
    (h_rows : ∀ bs, bs.length ≤ env.payloadSize → ∀ rows, ext.parquetRows bs = some rows →
      rows.length ≤ N) {part : ℤ → ℕ} (bad : DeserPQ → Prop)
    (h_bad : ∀ l, DeserPQ.Thrown l → bad l) (l : DeserPQ) :
    Descends (σ := σ) 5 (serverWeight (inputPrice N) part) (FullPool env) (fun _ => True) bad
      (DeserPQ.price N) l (deserializePQ env ext l) := by
  cases l with
  | start =>
    simp only [deserializePQ]
    split
    · refine ⟨by decide, fun v _ => ⟨trivial, ?_⟩⟩
      dsimp only
      split <;> simp only [DeserPQ.price, serverWeight, inputPrice] <;> omega
    · refine ⟨by decide, fun v _ => ⟨trivial, ?_⟩⟩
      simp only [DeserPQ.price, serverWeight, inputPrice]
      omega
  | skipPush b => exact ⟨by decide, fun _ => ⟨trivial, show 12 + 8 < 21 by decide⟩⟩
  | popOut b =>
    exact ⟨by decide, fun v _ => ⟨trivial, by simp only [DeserPQ.price, serverWeight]; omega⟩⟩
  | openStream d =>
    intro m h_full h_not
    -- the file is in a buffer, so its rows are counted by `N`
    have h_length : (m.pool d.deserBuff).data.length ≤ env.payloadSize := by
      rw [← h_full d.deserBuff]
      exact List.length_take_le' _ _
    revert h_not
    dsimp only
    split
    · exact fun h_not => absurd (h_bad (.thrown d.deserBuff d.writeBuff) trivial) h_not
    · next rows h_some =>
      have h_le := h_rows _ h_length rows h_some
      exact fun _ => ⟨h_full, trivial, by simp only [DeserPQ.price]; omega⟩
  | row d =>
    simp only [deserializePQ]
    split
    · -- no row is left
      exact fun m h_full _ => ⟨h_full, trivial, by simp only [DeserPQ.price]; omega⟩
    · next row rows h_cons =>
      intro m h_full _
      have h_payload : (writeParquetRow env d.numRows env.schema row 0
          (m.pool d.writeBuff).payload).length = env.payloadSize :=
        (length_writeParquetRow _ _ _ _ _).trans (h_full d.writeBuff)
      dsimp only
      -- the row fills the buffer, or the next one goes behind it
      split
      · refine ⟨full_write h_full _ h_payload, trivial, ?_⟩
        simp only [DeserPQ.price, h_cons, List.length_cons]
        omega
      · refine ⟨full_write h_full _ h_payload, trivial, ?_⟩
        simp only [DeserPQ.price, h_cons, List.length_cons]
        omega
  | flushPush d =>
    exact ⟨by decide, fun _ => ⟨trivial, by simp only [DeserPQ.price, serverWeight]; omega⟩⟩
  | flushPop d =>
    exact ⟨by decide, fun v _ => ⟨trivial, by simp only [DeserPQ.price, serverWeight]; omega⟩⟩
  | freeIn d => exact ⟨by decide, fun _ => ⟨trivial, show 11 + 0 < 12 by decide⟩⟩
  | nextIn d =>
    refine ⟨by decide, fun v _ => ⟨trivial, ?_⟩⟩
    dsimp only
    split <;> simp only [DeserPQ.price, serverWeight, inputPrice] <;> omega
  | rest d =>
    simp only [deserializePQ]
    split
    · exact fun m h_full _ => ⟨full_write h_full _ (h_full d.writeBuff), trivial,
        Nat.lt_succ_self 9⟩
    · exact fun m h_full _ => ⟨h_full, trivial, Nat.succ_pos 9⟩
  | restPush d => exact ⟨by decide, fun _ => ⟨trivial, show 0 + 8 < 9 by decide⟩⟩
  | done o => trivial
  | thrown i o => exact fun m _ h_not => absurd (h_bad (.thrown i o) trivial) h_not

end Parquet

/-! ### Reading -/

section Readers

variable (env : RuntimeEnv) (ext : External) (w : ℕ)

/-- The price of a thread that reads the CSV file: every line may need a new buffer. -/
def ReadCSV.price : ReadCSV → ℕ
  | .start => (w + 4) * ext.file.length + w + 4
  | .popPart r => (w + 4) * r.file.length + w + 3
  | .takePart r _ => (w + 4) * r.file.length + w + 5
  | .next r _ => (w + 4) * r.file.length + w + 4
  | .flushPush r _ _ => (w + 4) * r.file.length + 2 * w + 7
  | .flushPop r _ _ => (w + 4) * r.file.length + w + 6
  | .copy r _ _ => (w + 4) * r.file.length + w + 5
  | .last _ => w + 2
  | .lastPush _ => w + 1
  | .done => 0

/-- The price of a thread that reads from PostgreSQL. -/
def ReadPG.price : ReadPG → ℕ
  | .start => w + 4
  | .popPart _ => w + 3
  | .row _ rows => (w + 4) * rows.length + w + 4
  | .flushPush _ _ rows => (w + 4) * rows.length + 2 * w + 7
  | .flushPop _ _ rows => (w + 4) * rows.length + w + 6
  | .copy _ _ rows => (w + 4) * rows.length + w + 5
  | .last _ => w + 2
  | .lastPush _ => w + 1
  | .done => 0

/-- The price of a thread that reads Parquet files. -/
def ReadPQ.price : ReadPQ → ℕ
  | .popPart => 1
  | .file p i => (w + 3) * (pqEndOff env ext p - i).toNat + 2
  | .load p i _ _ => (w + 3) * (pqEndOff env ext p - i).toNat + 1
  | .push p i _ => (w + 3) * (pqEndOff env ext p - i).toNat
  | .done => 0
  | .thrown _ => 0

/-- A file that is loaded is one of the partition. -/
def ReadPQ.InPart : ReadPQ → Prop
  | .load p i _ _ => i < pqEndOff env ext p
  | .push p i _ => i < pqEndOff env ext p
  | _ => True

/-- The price of a partition. -/
def partPrice : Source → ℤ → ℕ
  | .csv, _ => 3
  | .postgres, p => (w + 4) * (ext.copyData (startOff ext.maxCtId env.readParallelism p)
      (endOff ext.maxCtId env.readParallelism (2 ^ 32 - 1) p)).length + 3
  | .parquet, p => (w + 3) * (pqEndOff env ext p - pqStartOff env ext p).toNat + 2

variable {env ext w} {σ : Type}

theorem readCSV_descends (thr : ℕ) (bad : ReadCSV → Prop) (l : ReadCSV) :
    Descends (σ := σ) 5 (serverWeight w (partPrice env ext w .csv)) (FullPool env)
      (fun _ => True) bad (ReadCSV.price ext w) l (readCSV env ext thr l) := by
  cases l with
  | start =>
    simp only [readCSV]
    split
    · exact ⟨by decide, fun v _ => ⟨trivial, by simp only [ReadCSV.price, serverWeight]; omega⟩⟩
    · trivial
  | popPart r =>
    refine ⟨by decide, fun v _ => ⟨trivial, ?_⟩⟩
    dsimp only
    split <;> simp only [ReadCSV.price, serverWeight, partPrice] <;> omega
  | takePart r p =>
    refine fun m h_full _ => ⟨h_full, trivial, ?_⟩
    have h_le : (r.skipTo (csvStartOff env ext p)).file.length ≤ r.file.length :=
      length_skipLines _ _
    have h_mul := Nat.mul_le_mul_left (w + 4) h_le
    simp only [ReadCSV.price]
    omega
  | next r p =>
    simp only [readCSV]
    split
    · split
      · exact fun m h_full _ => ⟨h_full, trivial, by simp only [ReadCSV.price]; omega⟩
      · next text rest h_line =>
        -- the line that is read pays for the copy and for a buffer
        have h_mul := Nat.mul_le_mul_left (w + 4) (Nat.succ_le_of_lt (length_of_getline h_line))
        rw [Nat.mul_succ] at h_mul
        split
        · refine fun m h_full _ => ⟨full_write h_full _ (h_full r.curBid), trivial, ?_⟩
          simp only [ReadCSV.price]
          omega
        · refine fun m h_full _ => ⟨full_write h_full _
            ((length_put _ _ _).trans (h_full r.curBid)), trivial, ?_⟩
          simp only [ReadCSV.price, CsvVars.copyLine]
          omega
    · exact fun m h_full _ => ⟨h_full, trivial, by simp only [ReadCSV.price]; omega⟩
  | flushPush r p line =>
    exact ⟨by decide, fun _ => ⟨trivial, by simp only [ReadCSV.price, serverWeight]; omega⟩⟩
  | flushPop r p line =>
    exact ⟨by decide, fun v _ => ⟨trivial, by simp only [ReadCSV.price, serverWeight]; omega⟩⟩
  | copy r p line =>
    refine fun m h_full _ => ⟨full_write h_full _
      ((length_put _ _ _).trans (h_full r.curBid)), trivial, ?_⟩
    simp only [ReadCSV.price, CsvVars.copyLine]
    omega
  | last r =>
    exact fun m h_full _ => ⟨full_write h_full _ (h_full r.curBid), trivial, Nat.lt_succ_self _⟩
  | lastPush r =>
    exact ⟨by decide, fun _ => ⟨trivial, by simp only [ReadCSV.price, serverWeight]; omega⟩⟩
  | done => trivial

theorem readPG_descends (bad : ReadPG → Prop) (l : ReadPG) :
    Descends (σ := σ) 5 (serverWeight w (partPrice env ext w .postgres)) (FullPool env)
      (fun _ => True) bad (ReadPG.price w) l (readPG env ext l) := by
  cases l with
  | start =>
    exact ⟨by decide, fun v _ => ⟨trivial, by simp only [ReadPG.price, serverWeight]; omega⟩⟩
  | popPart r =>
    refine ⟨by decide, fun v _ => ⟨trivial, ?_⟩⟩
    dsimp only
    split <;> simp only [ReadPG.price, serverWeight, partPrice] <;> omega
  | row r rows =>
    cases rows with
    | nil => exact fun m h_full _ => ⟨h_full, trivial, by simp only [ReadPG.price]; omega⟩
    | cons row rows =>
      -- the row that is read pays for the copy and for a buffer
      have h_mul := Nat.mul_add_one (w + 4) rows.length
      simp only [readPG]
      split
      · exact fun m h_full _ => ⟨h_full, trivial, by simp only [ReadPG.price]; omega⟩
      · split
        · refine fun m h_full _ => ⟨full_write h_full _ (h_full r.curBid), trivial, ?_⟩
          simp only [ReadPG.price, List.length_cons]
          omega
        · refine fun m h_full _ => ⟨full_write h_full _
            ((length_put _ _ _).trans (h_full r.curBid)), trivial, ?_⟩
          simp only [ReadPG.price, PgVars.copyRow, List.length_cons]
          omega
  | flushPush r row rows =>
    exact ⟨by decide, fun _ => ⟨trivial, by simp only [ReadPG.price, serverWeight]; omega⟩⟩
  | flushPop r row rows =>
    exact ⟨by decide, fun v _ => ⟨trivial, by simp only [ReadPG.price, serverWeight]; omega⟩⟩
  | copy r row rows =>
    refine fun m h_full _ => ⟨full_write h_full _
      ((length_put _ _ _).trans (h_full r.curBid)), trivial, ?_⟩
    simp only [ReadPG.price, PgVars.copyRow]
    omega
  | last r =>
    exact fun m h_full _ => ⟨full_write h_full _ (h_full r.curBid), trivial, Nat.lt_succ_self _⟩
  | lastPush r =>
    exact ⟨by decide, fun _ => ⟨trivial, by simp only [ReadPG.price, serverWeight]; omega⟩⟩
  | done => trivial

theorem readPQ_descends (bad : ReadPQ → Prop) (h_bad : ∀ l, ReadPQ.Thrown l → bad l) (l : ReadPQ)
    (h : l.InPart env ext) :
    Descends (σ := σ) 5 (serverWeight w (partPrice env ext w .parquet)) (FullPool env)
      (ReadPQ.InPart env ext) bad (ReadPQ.price env ext w) l (readPQ env ext l) := by
  cases l with
  | popPart =>
    refine ⟨by decide, fun v _ => ?_⟩
    dsimp only
    split
    · exact ⟨trivial, by simp only [ReadPQ.price]; omega⟩
    · exact ⟨trivial, by simp only [ReadPQ.price, serverWeight, partPrice]; omega⟩
  | file p i =>
    simp only [readPQ]
    split
    · next h_lt =>
      split
      · exact fun m _ h_not => absurd (h_bad (.thrown none) trivial) h_not
      · exact ⟨by decide, fun v _ => ⟨h_lt, by simp only [ReadPQ.price, serverWeight]; omega⟩⟩
    · exact fun m h_full _ => ⟨h_full, trivial, by simp only [ReadPQ.price]; omega⟩
  | load p i contents b =>
    have h_lt : i < pqEndOff env ext p := h
    intro m h_full h_not
    revert h_not
    dsimp only
    split
    · exact fun h_not => absurd (h_bad (.thrown (some b)) trivial) h_not
    · exact fun _ => ⟨full_write h_full _ ((length_put _ _ _).trans (h_full b)), h_lt,
        Nat.lt_succ_self _⟩
  | push p i b =>
    have h_lt : i < pqEndOff env ext p := h
    refine ⟨by decide, fun _ => ⟨trivial, ?_⟩⟩
    -- the file that has been loaded pays for its buffer
    have h_succ : (pqEndOff env ext p - i).toNat = (pqEndOff env ext p - (i + 1)).toNat + 1 := by
      omega
    simp only [ReadPQ.price, serverWeight, h_succ, Nat.mul_succ]
    omega
  | done => trivial
  | thrown b => exact fun m _ h_not => absurd (h_bad (.thrown b) trivial) h_not

end Readers

/-! ### The server -/

section Server

variable (src : Source) (env : RuntimeEnv) (ext : External) (N : ℕ)

/-- The price of a buffer on the way to the deserialization threads, where a Parquet file has at
most `N` rows. -/
def deserPrice : Source → ℕ
  | .csv => inputPrice env.payloadSize
  | .postgres => inputPrice env.payloadSize
  | .parquet => inputPrice N

/-- The price of a read thread. -/
def readerPrice : (src : Source) → Reader src → ℕ
  | .csv => ReadCSV.price ext (deserPrice env N .csv)
  | .postgres => ReadPG.price (deserPrice env N .postgres)
  | .parquet => ReadPQ.price env ext (deserPrice env N .parquet)

/-- The price of a deserialization thread. -/
def deserializerPrice : (src : Source) → Deserializer src → ℕ
  | .csv => Deser.price env
  | .postgres => Deser.price env
  | .parquet => DeserPQ.price N

/-- The price of a thread of the server. -/
def serverPrice : (t : Tid 4 (parallelism env)) → Local src t.1 → ℕ
  | ⟨0, _⟩ => readerPrice env ext N src
  | ⟨1, _⟩ => deserializerPrice env N src
  | ⟨2, _⟩ => Comp.price
  | ⟨3, _⟩ => Send.price

/-- What holds of a read thread. -/
def InPart : (src : Source) → Reader src → Prop
  | .csv => fun _ => True
  | .postgres => fun _ => True
  | .parquet => ReadPQ.InPart env ext

/-- What holds of a thread of the server. -/
def ServerGood : (t : Tid 4 (parallelism env)) → Local src t.1 → Prop
  | ⟨0, _⟩ => InPart env ext src
  | ⟨1, _⟩ => fun _ => True
  | ⟨2, _⟩ => fun _ => True
  | ⟨3, _⟩ => fun _ => True

/-- A read thread or a deserialization thread that has failed. -/
def thrown : (src : Source) → (t : Tid 4 (parallelism env)) → Local src t.1 → Prop
  | .csv, ⟨1, _⟩ => Deser.Thrown
  | .postgres, ⟨1, _⟩ => Deser.Thrown
  | .parquet, ⟨0, _⟩ => ReadPQ.Thrown
  | .parquet, ⟨1, _⟩ => DeserPQ.Thrown
  | _, _ => fun _ => False

/-- A thread fails: it takes the end marker for its first buffer, follows a null pointer or is ended
by an exception. -/
def fails (t : Tid 4 (parallelism env)) (l : Local src t.1) : Prop :=
  sentinelTaken src env t l ∨ thrown env src t l

variable {src env ext N}

/-- The prices of the server. -/
def serverPotential (h_schema : src ≠ .parquet → env.schema ≠ [])
    (h_rows : ∀ bs, bs.length ≤ env.payloadSize → ∀ rows, ext.parquetRows bs = some rows →
      rows.length ≤ N) : Potential (machine src env ext) (fails src env) where
  queues := 5
  weight := serverWeight (deserPrice env N src) (partPrice env ext (deserPrice env N src) src)
  carry := serverPrice src env ext N
  ok := ServerGood src env ext
  fit := FullPool env
  descends := by
    rintro ⟨k, i⟩ l h_ok
    match k, i, l, h_ok with
    | 0, i, l, h_ok =>
      cases src with
      | csv => exact readCSV_descends i _ l
      | postgres => exact readPG_descends _ l
      | parquet => exact readPQ_descends _ (fun _ h => .inr h) l h_ok
    | 1, i, l, _ =>
      cases src with
      | csv =>
        exact deserializeText_descends csvText (h_schema (fun h => by cases h)) _
          (fun _ h => .inr h) l
      | postgres =>
        exact deserializeText_descends pgText (h_schema (fun h => by cases h)) _
          (fun _ h => .inr h) l
      | parquet => exact deserializePQ_descends h_rows _ (fun _ h => .inr h) l
    | 2, i, l, _ => exact compress_descends _ l
    | 3, i, l, _ => exact send_descends i _ l

theorem holds_initial (h_schema : src ≠ .parquet → env.schema ≠ [])
    (h_rows : ∀ bs, bs.length ≤ env.payloadSize → ∀ rows, ext.parquetRows bs = some rows →
      rows.length ≤ N) : (serverPotential h_schema h_rows).Holds (initial src env ext) where
  ok t := by
    obtain ⟨k, i⟩ := t
    match k, i with
    | 0, _ => cases src <;> trivial
    | 1, _ => trivial
    | 2, _ => trivial
    | 3, _ => trivial
  fit _ := List.length_replicate

/-- No Parquet file that fits into a buffer has more rows than some number. -/
theorem exists_rows_le (env : RuntimeEnv) (ext : External) :
    ∃ N, ∀ bs, bs.length ≤ env.payloadSize → ∀ rows, ext.parquetRows bs = some rows →
      rows.length ≤ N := by
  obtain ⟨N, hN⟩ := exists_bound (fun bs => ((ext.parquetRows bs).getD []).length) env.payloadSize
  refine ⟨N, fun bs h_length rows h_rows => ?_⟩
  have h_le := hN bs h_length
  rwa [h_rows, Option.getD_some] at h_le

/-- The server does not lock up in runs in which no thread fails. -/
theorem not_deadlock_server (h_staff : Staffed env) (h_pool : PoolChecked env)
    (h : Undisturbed src env ext) (h_room : Roomy src env) {s : State (machine src env ext)}
    (h_run : Reachable (machine src env ext) (fails src env) (initial src env ext) s) :
    ¬ Deadlock (machine src env ext) s := by
  have h_fits : Fits (initial src env ext) := by
    intro q h_cap
    match q with
    | 0 => exact absurd rfl h_cap
    | 1 => exact Nat.zero_le _
    | 2 => exact Nat.zero_le _
    | 3 => exact Nat.zero_le _
    | _ + 4 => exact absurd rfl h_cap
  have h_bad : ∀ t l, sentinelTaken src env t l → fails src env t l := fun _ _ h => .inl h
  -- a read thread that asks for a partition finds one, or an end marker
  obtain ⟨h_kept, h_handed, h_supplied⟩ :=
    (tasks src env ext (fails src env) h_bad).supplied (S := signals h.opens _ h_bad) h_run
      kept_initial (handed_initial h_staff h.opens) supplied_initial
  exact not_deadlock (signals_clean h) h_kept h_handed (h_fits.of_reachable h_run)
    (fun _ _ _ _ hrun hop hq => h_supplied.ne_nil h_kept hrun hop hq)
    (ample h_staff h_pool h h_room)

/-- **The server completes.** There is a bound on the number of steps of every run in which no
thread fails, and such a run that cannot go on has ended: all threads have exited. -/
theorem server_completes (h_staff : Staffed env) (h_pool : PoolChecked env)
    (h : Undisturbed src env ext) (h_room : Roomy src env)
    (h_schema : src ≠ .parquet → env.schema ≠ []) :
    ∃ most, ∀ k s, Run (machine src env ext) (fails src env) (initial src env ext) k s →
      k ≤ most ∧ (Halted s → ∀ t, (s.thread t).Exited) := by
  obtain ⟨N, h_rows⟩ := exists_rows_le env ext
  refine ⟨(serverPotential h_schema h_rows).total (initial src env ext), fun k s h_run => ⟨?_, ?_⟩⟩
  · exact (Nat.le_add_right _ _).trans ((holds_initial h_schema h_rows).run h_run).2
  · intro h_halted
    exact exited_of_halted h_halted
      (not_deadlock_server h_staff h_pool h h_room h_run.reachable)

end Server

instance Deser.decThrown (l : Deser) : Decidable l.Thrown := by
  unfold Thrown; split <;> infer_instance

/-- A thread of the server for the CSV file fails or not. -/
instance decFails (env : RuntimeEnv) (t : Tid 4 (parallelism env)) (l : Local .csv t.1) :
    Decidable (fails .csv env t l) :=
  match t, l with
  | ⟨0, _⟩, _ => @instDecidableOr _ _ instDecidableFalse instDecidableFalse
  | ⟨1, _⟩, l => @instDecidableOr _ _ (Deser.decTakesMarker l) (Deser.decThrown l)
  | ⟨2, _⟩, _ => @instDecidableOr _ _ instDecidableFalse instDecidableFalse
  | ⟨3, _⟩, _ => @instDecidableOr _ _ instDecidableFalse instDecidableFalse

/-- A run that delivers a table of four rows comes to an end. -/
theorem server_completes_pairsEnv :
    ∃ most, (∀ k s, Run (machine .csv pairsEnv fourRows) (fails .csv pairsEnv)
        (initial .csv pairsEnv fourRows) k s → k ≤ most) ∧
      ∃ k s, Run (machine .csv pairsEnv fourRows) (fails .csv pairsEnv)
        (initial .csv pairsEnv fourRows) k s ∧ Halted s := by
  obtain ⟨most, h_most⟩ := @server_completes .csv pairsEnv fourRows
    ⟨by decide, by decide, by decide, by decide⟩ (by rw [PoolChecked]; decide)
    ⟨fun _ _ _ => rfl, fun _ _ => rfl⟩ ⟨fun h => absurd rfl h, by decide, by decide, by decide⟩
    fun _ => List.cons_ne_nil _ _
  obtain ⟨s, h_reach, h_exited⟩ := @exists_reachable .csv pairsEnv fourRows (fails .csv pairsEnv)
    (decFails pairsEnv) pairsRun (fun s => ∀ t, (s.thread t).Exited) _ (by decide +kernel)
  obtain ⟨k, h_run⟩ := h_reach.run
  exact ⟨most, fun k s h => (h_most k s h).1, k, s, h_run, halted_of_exited h_exited⟩

end Xdbc.Server
