import Xdbc.Client.PqFiles
import Xdbc.Wire
import Xdbc.Bytes.Codec

/-!
# The serialization threads of the Parquet sink

`PQSink::serialize` as a program of the pipeline. It writes to its output buffer by its address,
without regard to the header at the beginning, so a buffer is a block of memory here and
`bufferOf` reads the header and the payload off it. The write threads are those of `pqWrite`: what
they store for a block is `(bufferOf block).data`.

For the Arrow format the end marker is recognised only after an output buffer has been popped
(`popOut`), and the thread returns when the input cannot be read (`returned`). For the column format
the values of the rows are read and not used: constants are streamed in their place. For all other
formats an error is logged and the thread reports that it is ready.
-/

namespace Xdbc.Client

open Bytes Pipeline

/-- A row: the bytes of its values. -/
abbrev PqRow : Type := List (List UInt8)

/-- The Parquet library. -/
structure Parquet extends Codec (List PqRow) where
  /-- How many bytes of the file a `StreamWriter` has written before it is destroyed. -/
  early : List PqRow → ℕ

/-- The header and the payload in a block of memory. -/
def bufferOf (block : List UInt8) : Buffer := ⟨headerOfBytes block, block.drop sizeofHeader⟩

/-- The program points of `PQSink::serialize`. -/
inductive PqSer where
  | popIn
  | skipPush (bufferId : ℤ)
  | popOut (bufferId : ℤ)
  /-- The file is written to the output buffer. -/
  | convert (bufferId outBufferId : ℤ)
  | pushOut (bufferId outBufferId : ℤ)
  | freeIn (bufferId : ℤ)
  /-- The loop is left, with an output buffer in hand if it was popped in front of the test. -/
  | done (outBufferId : Option ℤ)
  /-- The thread has returned in the middle of an iteration. -/
  | returned (bufferId outBufferId : ℤ)
  /-- An exception has ended the thread. -/
  | thrown (bufferId outBufferId : ℤ)
  deriving DecidableEq

section Serialize

variable {σ : Type} (env : RuntimeEnv) (lib : Parquet) (arrow : List UInt8 → Option (List PqRow))

/-- `buffer_size * 1024 - sizeof(Header)`, the size of the region for a table. -/
def arrowRegion : ℕ := toSizeT (env.bufferSizeInBytes - sizeofHeader : ℤ)

/-- The output buffer with the file of a table. -/
def writeTable (rows : List PqRow) (block : List UInt8) : List UInt8 :=
  put block 0 ((lib.file rows).take (arrowRegion env))

/-- What is streamed for a value: `1`, `2.5`, `"test"` and `'a'`. -/
def streamedValue (a : SchemaAttribute) : List UInt8 :=
  match a.tpe with
  | .int => leBytes 4 1
  | .double => leBytes 8 0x4004000000000000
  | .string => [116, 101, 115, 116]
  | .char => [97]

/-- The rows that are streamed for `n` rows of the input. -/
def streamedRows (n : ℕ) : List PqRow := List.replicate n (env.schema.map streamedValue)

/-- `CreateParquetSchema` takes no `CHAR` of size 0, and a column of another size than 1 takes no
character. -/
def streamThrows (n : ℕ) : Bool :=
  env.schema.any fun a => a.tpe = .char && (a.size = 0 || 0 < n && a.size ≠ 1)

/-- The output buffer with the file of the streamed rows. `totalSize` is written while the
`StreamWriter` still exists, and it is set to the size of the region. -/
def writeStream (n : ℕ) (block : List UInt8) : List UInt8 :=
  let file := (lib.file (streamedRows env n)).take env.bufferSizeInBytes
  let early := lib.early (streamedRows env n)
  put (put (put block 0 (file.take early)) 8 (leBytes 8 env.bufferSizeInBytes)) early
    (file.drop early)

/-- `PQSink::serialize`. -/
def pqSerialize : PqSer → Op PqSer (List UInt8) σ
  | .popIn =>
    if env.skipSerializer then .pop 2 fun b => if b = marker then .done none else .skipPush b
    else if env.iformat = 3 then .pop 2 .popOut
    else if env.iformat = 2 then .pop 2 fun b => if b = marker then .done none else .popOut b
    else .work [] fun m => (m, .done none)
  | .skipPush b => .push 3 b .popIn
  | .popOut b => .pop 0 fun o => if b = marker then .done (some o) else .convert b o
  | .convert b o => .work [b, o] fun m =>
    let buffer := bufferOf (m.pool b)
    if env.iformat = 3 then
      match arrow buffer.data with
      | none => (m, .returned b o)
      | some rows => (m.write o (writeTable env lib rows (m.pool o)), .pushOut b o)
    else if streamThrows env buffer.header.totalTuples then (m, .thrown b o)
    else (m.write o (writeStream env lib buffer.header.totalTuples (m.pool o)), .pushOut b o)
  | .pushOut b o => .push 3 o (.freeIn b)
  | .freeIn b => .push 0 b .popIn
  | .done _ => .leave
  | .returned _ _ => .quit
  | .thrown b o => .work [] fun m => (m, .thrown b o)

end Serialize

/-- The buffers the live local variables name. -/
def PqSer.held : PqSer → Multiset ℤ
  | .popIn => 0
  | .skipPush b => {b}
  | .popOut b => if b = marker then 0 else {b}
  | .convert b o => {b, o}
  | .pushOut b o => {b, o}
  | .freeIn b => {b}
  | .done o => (o.toList : Multiset ℤ)
  | .returned b o => {b, o}
  | .thrown b o => {b, o}

/-- An output buffer is popped for the end marker too. -/
theorem PqSer.held_popOut_marker : (PqSer.popOut marker).held = 0 := by
  rw [PqSer.held, if_pos rfl]

theorem PqSer.held_popOut {b : ℤ} (hb : b ≠ marker) : (PqSer.popOut b).held = {b} := by
  rw [PqSer.held, if_neg hb]

variable {σ : Type} (env : RuntimeEnv) (lib : Parquet) (arrow : List UInt8 → Option (List PqRow))

/-- The program gives away only what it holds, and it names no end marker. -/
theorem pqSerialize_honest (bad : PqSer → Prop) (l : PqSer) (h : NoMarker PqSer.held l) :
    Honest (σ := σ) 4 PqSer.held (NoMarker PqSer.held) bad l (pqSerialize env lib arrow l) := by
  have h_one : ∀ {l : PqSer} {v : ℤ}, v ≠ marker → l.held = {v} → NoMarker PqSer.held l := by
    intro l v hv hl b hb
    rw [hl, Multiset.mem_singleton] at hb
    exact hb ▸ hv
  cases l with
  | popIn =>
    simp only [pqSerialize]
    split
    · -- `skip_serializer` hands the buffer on
      refine ⟨fun v _ hv _ => ?_, fun _ _ _ => ⟨h, rfl⟩, by simp⟩
      dsimp only
      rw [if_neg hv]
      exact ⟨h_one hv rfl, rfl⟩
    · split
      · -- Arrow pops an output buffer also after the marker
        refine ⟨fun v _ hv _ => ?_, fun _ _ _ => ?_, by simp⟩
        · exact ⟨h_one hv (PqSer.held_popOut hv), PqSer.held_popOut hv⟩
        · refine ⟨?_, PqSer.held_popOut_marker⟩
          rw [NoMarker, PqSer.held_popOut_marker]
          exact h
      · -- columns, and no other format
        split
        · refine ⟨fun v _ hv _ => ?_, fun _ _ _ => ⟨h, rfl⟩, by simp⟩
          dsimp only
          rw [if_neg hv]
          exact ⟨h_one hv (PqSer.held_popOut hv), PqSer.held_popOut hv⟩
        · exact fun _ _ => ⟨h, rfl⟩
  | popOut b =>
    refine ⟨fun v _ hv _ => ?_, by simp, by simp⟩
    dsimp only
    -- after the marker only the output buffer is held
    split
    · next hb =>
      subst hb
      rw [PqSer.held_popOut_marker]
      exact ⟨h_one hv rfl, rfl⟩
    · next hb =>
      rw [PqSer.held_popOut hb]
      refine ⟨?_, Multiset.pair_comm _ _⟩
      simp_all [NoMarker, PqSer.held]
  | convert b o =>
    intro m
    -- converted or not, both buffers stay in hand
    dsimp only
    split
    · split <;> exact fun _ => ⟨h, rfl⟩
    · split <;> exact fun _ => ⟨h, rfl⟩
  | pushOut b o =>
    refine ⟨by omega, h o (by simp [PqSer.held]), fun _ => ⟨?_, Multiset.pair_comm _ _⟩⟩
    simp_all [NoMarker, PqSer.held]
  | _ => simp_all [pqSerialize, Honest, NoMarker, PqSer.held]

end Xdbc.Client
