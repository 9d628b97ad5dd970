import Xdbc.Server.System
import Xdbc.Pipeline.Solo

/-!
# Who holds which buffer

The server's programs handle buffers honestly: `custody` discharges the obligations of the pipeline
library, one program at a time, for all runs in which no deserialization thread takes an end marker
for a buffer (`sentinelTaken`). A deserialization thread can do so on its first pop only, as it
compares only later ids with the marker.

From this follow that the buffers are indexed inside the pool (`indexesInPool_of_reachable`) and
that every id has one place and every access one owner (`owned_of_reachable`). What a thread does
can therefore be studied in solo runs: every thread of the server makes one
(`exists_solo_of_reachable`).
-/

namespace Xdbc.Server

open Bytes Pipeline

/-! ### The ids a program point names -/

/-- The buffers the live local variables of `readCSV` name. -/
def ReadCSV.held : ReadCSV → Multiset ℤ
  | .start => 0
  | .popPart r => {r.curBid}
  | .takePart r _ => {r.curBid}
  | .next r _ => {r.curBid}
  | .flushPush r _ _ => {r.curBid}
  | .flushPop _ _ _ => 0
  | .copy r _ _ => {r.curBid}
  | .last r => {r.curBid}
  | .lastPush r => {r.curBid}
  | .done => 0

/-- The buffers the live local variables of `readPG` name. -/
def ReadPG.held : ReadPG → Multiset ℤ
  | .start => 0
  | .popPart r => {r.curBid}
  | .row r _ => {r.curBid}
  | .flushPush r _ _ => {r.curBid}
  | .flushPop _ _ _ => 0
  | .copy r _ _ => {r.curBid}
  | .last r => {r.curBid}
  | .lastPush r => {r.curBid}
  | .done => 0

/-- The buffers the live local variables of `readPQ` name. -/
def ReadPQ.held : ReadPQ → Multiset ℤ
  | .popPart => 0
  | .file _ _ => 0
  | .load _ _ _ b => {b}
  | .push _ _ b => {b}
  | .done => 0
  | .thrown b => (b.toList : Multiset ℤ)

/-- The buffers the live local variables of `deserializeCSV` and `deserializePG` name. -/
def Deser.held : Deser → Multiset ℤ
  | .start => 0
  | .skipPush b => {b}
  | .popIn o => {o}
  | .row d => {d.inBid, d.outBid}
  | .flushPush d => {d.inBid, d.outBid}
  | .flushPop d => {d.inBid}
  | .freeIn d => {d.inBid, d.outBid}
  | .nextIn d => {d.outBid}
  | .rest d => {d.outBid}
  | .restPush d => {d.outBid}
  | .done o => (o.toList : Multiset ℤ)
  | .thrown i o => (i.toList : Multiset ℤ) + {o}

/-- The buffers the live local variables of `deserializePQ` name. -/
def DeserPQ.held : DeserPQ → Multiset ℤ
  | .start => 0
  | .skipPush b => {b}
  | .popOut b => {b}
  | .openStream d => {d.deserBuff, d.writeBuff}
  | .row d => {d.deserBuff, d.writeBuff}
  | .flushPush d => {d.deserBuff, d.writeBuff}
  | .flushPop d => {d.deserBuff}
  | .freeIn d => {d.deserBuff, d.writeBuff}
  | .nextIn d => {d.writeBuff}
  | .rest d => {d.writeBuff}
  | .restPush d => {d.writeBuff}
  | .done o => (o.toList : Multiset ℤ)
  | .thrown i o => {i, o}

/-- The buffers the live local variables of `Compressor::compress` name. -/
def Comp.held : Comp → Multiset ℤ
  | .popIn => 0
  | .forward b => {b}
  | .popOut b => {b}
  | .compress b o => {b, o}
  | .pushIn b o => {b, o}
  | .freeOut o => {o}
  | .pushOut b o => {b, o}
  | .freeIn b => {b}
  | .done => 0

/-- The buffers the live local variables of `XDBCServer::send` name. -/
def Send.held : Send → Multiset ℤ
  | .popIn _ => 0
  | .write _ b => {b}
  | .free _ b => {b}
  | .done => 0
  | .boostError b => {b}

/-- The buffers a program point names. -/
def held (src : Source) : (k : Fin 4) → Local src k → Multiset ℤ
  | 0 => match src with
    | .csv => ReadCSV.held
    | .postgres => ReadPG.held
    | .parquet => ReadPQ.held
  | 1 => match src with
    | .csv => Deser.held
    | .postgres => Deser.held
    | .parquet => DeserPQ.held
  | 2 => Comp.held
  | 3 => Send.held

/-! ### The end marker taken for a buffer -/

/-- The thread is about to use the end marker as an input buffer. -/
def Deser.TakesMarker : Deser → Prop
  | .row d => d.inBid = marker
  | _ => False

/-- The thread is about to use the end marker as an input buffer. -/
def DeserPQ.TakesMarker : DeserPQ → Prop
  | .popOut b => b = marker
  | _ => False

/-- The first id a deserialization thread has popped from its queue is the end marker. -/
def sentinelTaken (src : Source) (env : RuntimeEnv) :
    (t : Tid 4 (parallelism env)) → Local src t.1 → Prop
  | ⟨1, _⟩, l => match src with
    | .csv => Deser.TakesMarker l
    | .postgres => Deser.TakesMarker l
    | .parquet => DeserPQ.TakesMarker l
  | ⟨0, _⟩, _ => False
  | ⟨2, _⟩, _ => False
  | ⟨3, _⟩, _ => False

instance Deser.decTakesMarker (l : Deser) : Decidable l.TakesMarker := by
  unfold TakesMarker; split <;> infer_instance

instance DeserPQ.decTakesMarker (l : DeserPQ) : Decidable l.TakesMarker := by
  unfold TakesMarker; split <;> infer_instance

instance (src : Source) (env : RuntimeEnv) (t : Tid 4 (parallelism env)) (l : Local src t.1) :
    Decidable (sentinelTaken src env t l) :=
  match src, t, l with
  | .csv, ⟨1, _⟩, l => Deser.decTakesMarker l
  | .postgres, ⟨1, _⟩, l => Deser.decTakesMarker l
  | .parquet, ⟨1, _⟩, l => DeserPQ.decTakesMarker l
  | _, ⟨0, _⟩, _ => instDecidableFalse
  | _, ⟨2, _⟩, _ => instDecidableFalse
  | _, ⟨3, _⟩, _ => instDecidableFalse

/-! ### Every program is honest and careful -/

section Programs

variable {σ : Type} (env : RuntimeEnv) (ext : External)

theorem readCSV_honest (thr : ℕ) (bad : ReadCSV → Prop) (l : ReadCSV)
    (h : NoMarker ReadCSV.held l) :
    Honest (σ := σ) 4 ReadCSV.held (NoMarker ReadCSV.held) bad l (readCSV env ext thr l) := by
  cases l with
  | start =>
    simp only [readCSV]
    split
    · simp +contextual [Honest, NoMarker, ReadCSV.held]
    · trivial
  | popPart r =>
    refine ⟨by simp [partQueue], by simp [partQueue], fun v _ _ => ?_⟩
    dsimp only
    split <;> exact ⟨h, rfl⟩
  | next r p =>
    simp only [readCSV]
    split
    · split
      · exact fun _ _ => ⟨h, rfl⟩
      · split <;> exact fun _ _ => ⟨h, rfl⟩
    · exact fun _ _ => ⟨h, rfl⟩
  | _ => simp_all [readCSV, Honest, NoMarker, ReadCSV.held, CsvVars.skipTo, CsvVars.copyLine]

theorem readPG_honest (bad : ReadPG → Prop) (l : ReadPG) (h : NoMarker ReadPG.held l) :
    Honest (σ := σ) 4 ReadPG.held (NoMarker ReadPG.held) bad l (readPG env ext l) := by
  cases l with
  | popPart r =>
    refine ⟨by simp [partQueue], by simp [partQueue], fun v _ _ => ?_⟩
    dsimp only
    split <;> exact ⟨h, rfl⟩
  | row r rows =>
    cases rows with
    | nil => exact fun _ _ => ⟨h, rfl⟩
    | cons row rows =>
      simp only [readPG]
      split
      · exact fun _ _ => ⟨h, rfl⟩
      · split <;> exact fun _ _ => ⟨h, rfl⟩
  | _ => simp_all [readPG, Honest, NoMarker, ReadPG.held, PgVars.copyRow]

theorem readPQ_honest (bad : ReadPQ → Prop) (l : ReadPQ) (h : NoMarker ReadPQ.held l) :
    Honest (σ := σ) 4 ReadPQ.held (NoMarker ReadPQ.held) bad l (readPQ env ext l) := by
  cases l with
  | popPart =>
    refine ⟨by simp [partQueue], by simp [partQueue], fun v _ _ => ?_⟩
    dsimp only
    split <;> exact ⟨h, rfl⟩
  | file p i =>
    simp only [readPQ]
    split
    · split
      · exact fun _ _ => ⟨h, rfl⟩
      · simp +contextual [Honest, NoMarker, ReadPQ.held]
    · exact fun _ _ => ⟨h, rfl⟩
  | load p i contents b =>
    intro m
    simp only
    split <;> exact fun _ => ⟨h, rfl⟩
  | _ => simp_all [readPQ, Honest, NoMarker, ReadPQ.held]

/-- A round of the loop over the rows keeps both buffers in hand. -/
theorem DeserVars.step_held (X : TextSource) (d : DeserVars) (m : Memory Buffer σ) :
    (d.step X env ext m).2.held = {d.inBid, d.outBid} := by
  simp only [DeserVars.step]
  split
  · split
    · rfl
    · split
      · rfl
      · split
        · split
          · split <;> rfl
          · rfl
        · rfl
  · rfl

theorem deserializeText_honest (X : TextSource) (bad : Deser → Prop)
    (h_bad : ∀ l, Deser.TakesMarker l → bad l) (l : Deser) (h : NoMarker Deser.held l) :
    Honest (σ := σ) 4 Deser.held (NoMarker Deser.held) bad l (deserializeText X env ext l) := by
  cases l with
  | start =>
    simp only [deserializeText]
    split
    · simp +contextual [Honest, NoMarker, Deser.held]
    · simp +contextual [Honest, NoMarker, Deser.held]
  | popIn o =>
    -- a marker would be taken for the input buffer
    have h_marker : bad (.row ⟨o, marker, 0, 0, []⟩) := h_bad _ rfl
    refine ⟨fun v _ hv _ => ⟨?_, rfl⟩, fun _ _ h_not => absurd h_marker h_not, by simp⟩
    simp_all [NoMarker, Deser.held]
  | row d =>
    intro m _
    rw [NoMarker, d.step_held env ext X m]
    exact ⟨h, rfl⟩
  | nextIn d =>
    refine ⟨fun v _ hv _ => ?_, fun _ _ _ => ⟨h, rfl⟩, by simp⟩
    simp_all [NoMarker, Deser.held]
  | rest d =>
    simp only [deserializeText]
    split
    · exact fun _ _ => ⟨h, rfl⟩
    · split
      · intro m _
        dsimp only
        split <;> exact ⟨h, rfl⟩
      · exact fun _ _ => ⟨h, rfl⟩
  | flushPush d =>
    refine ⟨by omega, h d.outBid (by simp [Deser.held]), fun _ => ⟨?_, Multiset.pair_comm _ _⟩⟩
    simp_all [NoMarker, Deser.held]
  | flushPop d =>
    refine ⟨fun v _ hv _ => ⟨?_, Multiset.pair_comm _ _⟩, by simp, by simp⟩
    simp_all [NoMarker, Deser.held]
  | _ => simp_all [deserializeText, Honest, NoMarker, Deser.held]

theorem deserializePQ_honest (bad : DeserPQ → Prop)
    (h_bad : ∀ l, DeserPQ.TakesMarker l → bad l) (l : DeserPQ) (h : NoMarker DeserPQ.held l) :
    Honest (σ := σ) 4 DeserPQ.held (NoMarker DeserPQ.held) bad l (deserializePQ env ext l) := by
  cases l with
  | start =>
    simp only [deserializePQ]
    split
    · simp +contextual [Honest, NoMarker, DeserPQ.held]
    · -- here the first pop takes it
      have h_marker : bad (.popOut marker) := h_bad _ rfl
      refine ⟨fun v _ hv _ => ⟨?_, rfl⟩, fun _ _ h_not => absurd h_marker h_not, by simp⟩
      simpa [NoMarker, DeserPQ.held] using hv
  | popOut b =>
    refine ⟨fun v _ hv _ => ⟨?_, Multiset.pair_comm _ _⟩, by simp, by simp⟩
    simp_all [NoMarker, DeserPQ.held]
  | openStream d =>
    intro m _
    dsimp only
    split <;> exact ⟨h, rfl⟩
  | row d =>
    simp only [deserializePQ]
    split
    · exact fun _ _ => ⟨h, rfl⟩
    · intro m _
      dsimp only
      split <;> exact ⟨h, rfl⟩
  | nextIn d =>
    refine ⟨fun v _ hv _ => ?_, fun _ _ _ => ⟨h, rfl⟩, by simp⟩
    simp_all [NoMarker, DeserPQ.held]
  | rest d =>
    simp only [deserializePQ]
    split <;> exact fun _ _ => ⟨h, rfl⟩
  | flushPush d =>
    refine ⟨by omega, h d.writeBuff (by simp [DeserPQ.held]), fun _ => ⟨?_, Multiset.pair_comm _ _⟩⟩
    simp_all [NoMarker, DeserPQ.held]
  | flushPop d =>
    refine ⟨fun v _ hv _ => ⟨?_, Multiset.pair_comm _ _⟩, by simp, by simp⟩
    simp_all [NoMarker, DeserPQ.held]
  | _ => simp_all [deserializePQ, Honest, NoMarker, DeserPQ.held]

theorem compress_honest (bad : Comp → Prop) (l : Comp) (h : NoMarker Comp.held l) :
    Honest (σ := σ) 4 Comp.held (NoMarker Comp.held) bad l (compress env ext l) := by
  cases l with
  | popIn =>
    refine ⟨fun v _ hv _ => ?_, fun _ _ _ => ⟨h, rfl⟩, by simp⟩
    dsimp only
    rw [if_neg hv]
    split <;> simp [NoMarker, Comp.held, hv]
  | compress b o =>
    intro m _
    dsimp only
    split <;> exact ⟨h, rfl⟩
  | popOut b =>
    refine ⟨fun v _ hv _ => ⟨?_, Multiset.pair_comm _ _⟩, by simp, by simp⟩
    simp_all [NoMarker, Comp.held]
  | pushOut b o =>
    refine ⟨by omega, h o (by simp [Comp.held]), fun _ => ⟨?_, Multiset.pair_comm _ _⟩⟩
    simp_all [NoMarker, Comp.held]
  | _ => simp_all [compress, Honest, NoMarker, Comp.held]

theorem send_honest (thr : ℕ) (bad : Send → Prop) (l : Send) (h : NoMarker Send.held l) :
    Honest 4 Send.held (NoMarker Send.held) bad l (send ext thr l) := by
  cases l with
  | popIn j =>
    refine ⟨fun v _ hv _ => ?_, fun _ _ _ => ⟨h, rfl⟩, by simp⟩
    dsimp only
    rw [if_neg hv]
    simp [NoMarker, Send.held, hv]
  | write j b =>
    simp only [send]
    split <;> exact fun _ _ => ⟨h, rfl⟩
  | _ => simp_all [send, Honest, NoMarker, Send.held]

/-! ### Program points that are not reached -/

/-- With `skip_deserializer` a thread only hands buffers on. -/
def Deser.Forwards : Deser → Prop
  | .start => True
  | .skipPush _ => True
  | .done _ => True
  | _ => False

theorem deserializeText_leads (X : TextSource) (l : Deser)
    (h : X.skips ∧ env.skipDeserializer → l.Forwards) :
    (deserializeText (σ := σ) X env ext l).Leads
      fun l' => X.skips ∧ env.skipDeserializer → l'.Forwards := by
  by_cases h_skip : X.skips ∧ env.skipDeserializer
  · have h_forwards := h h_skip
    cases l with
    | start =>
      simp only [deserializeText, h_skip]
      intro v _
      dsimp only
      split <;> trivial
    | skipPush b => exact fun _ => trivial
    | done o => trivial
    | _ => exact h_forwards.elim
  · cases h_op : deserializeText (σ := σ) X env ext l <;> simp [Op.Leads, h_skip]

/-- With `skip_deserializer` a thread only hands buffers on. -/
def DeserPQ.Forwards : DeserPQ → Prop
  | .start => True
  | .skipPush _ => True
  | .done _ => True
  | _ => False

theorem deserializePQ_leads (l : DeserPQ) (h : env.skipDeserializer → l.Forwards) :
    (deserializePQ (σ := σ) env ext l).Leads fun l' => env.skipDeserializer → l'.Forwards := by
  by_cases h_skip : env.skipDeserializer
  · have h_forwards := h h_skip
    cases l with
    | start =>
      simp only [deserializePQ, h_skip]
      intro v _
      dsimp only
      split <;> trivial
    | skipPush b => exact fun _ => trivial
    | done o => trivial
    | _ => exact h_forwards.elim
  · cases h_op : deserializePQ (σ := σ) env ext l <;> simp [Op.Leads, h_skip]

/-- Without a codec a thread only hands buffers on. -/
def Comp.Forwards : Comp → Prop
  | .popIn => True
  | .forward _ => True
  | .done => True
  | _ => False

theorem compress_leads (l : Comp) (h : getCompId env.compressionAlgorithm = 0 → l.Forwards) :
    (compress (σ := σ) env ext l).Leads
      fun l' => getCompId env.compressionAlgorithm = 0 → l'.Forwards := by
  by_cases h_id : getCompId env.compressionAlgorithm = 0
  · have h_forwards := h h_id
    cases l with
    | popIn =>
      simp only [compress, h_id]
      intro v _
      dsimp only
      split <;> trivial
    | forward b => exact fun _ => trivial
    | done => trivial
    | _ => exact h_forwards.elim
  · cases h_op : compress (σ := σ) env ext l <;> simp [Op.Leads, h_id]

/-- A send thread stops at a socket error only if there is one. -/
def Send.Errs (thr : ℕ) (l : Send) : Prop :=
  ∀ b, l = .boostError b → ∃ j, ext.sendFails thr j = true

theorem send_leads (thr : ℕ) (l : Send) : (send ext thr l).Leads (Send.Errs ext thr) := by
  cases l with
  | popIn j =>
    intro v
    dsimp only
    split <;> simp [Send.Errs]
  | write j b =>
    simp only [send]
    split
    · next h_fails => exact fun _ _ _ => ⟨j, h_fails⟩
    · simp [Op.Leads, Send.Errs]
  | _ => simp [send, Op.Leads, Send.Errs]

/-! ### No program touches a buffer it does not hold -/

/-- What a round over the rows changes and what it depends on. -/
theorem DeserVars.step_careful (X : TextSource) (d : DeserVars) :
    Careful (σ := σ) Deser.held (.row d) (.work [d.inBid, d.outBid] (d.step X env ext)) := by
  refine ⟨by simp [Deser.held], fun m b hb => ?_, fun m m' h_world h_pool => ?_⟩
  · have hb' : b ≠ d.outBid := by rintro rfl; simp at hb
    simp only [DeserVars.step]
    repeat' split
    all_goals first | rfl | exact m.write_pool_of_ne hb' _
  · have h_in : m.pool d.inBid = m'.pool d.inBid := h_pool _ (by simp)
    have h_out : m.pool d.outBid = m'.pool d.outBid := h_pool _ (by simp)
    simp only [DeserVars.step, h_in, h_out]
    repeat' split
    all_goals simp_all [Memory.write_pool]

theorem readCSV_careful (thr : ℕ) (l : ReadCSV) :
    Careful (σ := σ) ReadCSV.held l (readCSV env ext thr l) := by
  cases l with
  | start =>
    simp only [readCSV]
    split <;> trivial
  | next r p =>
    simp only [readCSV]
    split
    · split
      · simp [Careful]
      · split <;>
          simp +contextual [Careful, ReadCSV.held, CsvVars.writeHeader, CsvVars.copyLine,
            Memory.write_pool]
    · simp [Careful]
  | _ =>
    simp +contextual [readCSV, Careful, ReadCSV.held, CsvVars.writeHeader, CsvVars.copyLine,
      Memory.write_pool]

theorem readPG_careful (l : ReadPG) : Careful (σ := σ) ReadPG.held l (readPG env ext l) := by
  cases l with
  | row r rows =>
    cases rows with
    | nil => simp [readPG, Careful]
    | cons row rows =>
      simp only [readPG]
      split
      · simp [Careful]
      · split <;>
          simp +contextual [Careful, ReadPG.held, PgVars.writeHeader, PgVars.copyRow,
            Memory.write_pool]
  | _ =>
    simp +contextual [readPG, Careful, ReadPG.held, PgVars.writeHeader, PgVars.copyRow,
      Memory.write_pool]

theorem readPQ_careful (l : ReadPQ) : Careful (σ := σ) ReadPQ.held l (readPQ env ext l) := by
  cases l with
  | file p i =>
    simp only [readPQ]
    split
    · split <;> simp [Careful]
    · simp [Careful]
  | load p i contents b =>
    simp only [readPQ]
    split <;> simp +contextual [Careful, ReadPQ.held, Memory.write_pool]
  | _ => simp [readPQ, Careful]

theorem deserializeText_careful (X : TextSource) (l : Deser) :
    Careful (σ := σ) Deser.held l (deserializeText X env ext l) := by
  cases l with
  | start =>
    simp only [deserializeText]
    split <;> trivial
  | row d => exact d.step_careful env ext X
  | rest d =>
    simp only [deserializeText]
    split
    · simp +contextual [Careful, Deser.held, Memory.write_pool]
    · split
      · split <;> simp +contextual [Careful, Deser.held, Memory.write_pool]
      · simp [Careful]
  | _ => simp [deserializeText, Careful]

theorem deserializePQ_careful (l : DeserPQ) :
    Careful (σ := σ) DeserPQ.held l (deserializePQ env ext l) := by
  cases l with
  | start =>
    simp only [deserializePQ]
    split <;> trivial
  | openStream d =>
    refine ⟨by simp [DeserPQ.held], fun m b hb => ?_, fun m m' h_world h_pool => ?_⟩
    · dsimp only
      split <;> rfl
    · have h_in : m.pool d.deserBuff = m'.pool d.deserBuff := h_pool _ (by simp)
      simp only [h_in]
      split <;> simp_all
  | row d =>
    simp only [deserializePQ]
    split
    · simp [Careful]
    · split <;> simp +contextual [Careful, DeserPQ.held, Memory.write_pool]
  | rest d =>
    simp only [deserializePQ]
    split <;> simp +contextual [Careful, DeserPQ.held, Memory.write_pool]
  | _ => simp [deserializePQ, Careful]

theorem compress_careful (l : Comp) : Careful (σ := σ) Comp.held l (compress env ext l) := by
  cases l with
  | compress b o =>
    refine ⟨by simp [Comp.held], fun m x hx => ?_, fun m m' h_world h_pool => ?_⟩
    · simp only [List.mem_cons, List.not_mem_nil, or_false, not_or] at hx
      simp [Memory.write_pool, hx.1, hx.2]
    · have h_in : m.pool b = m'.pool b := h_pool _ (by simp)
      have h_out : m.pool o = m'.pool o := h_pool _ (by simp)
      simp [h_in, h_out, h_world, Memory.write_pool]
  | _ => simp [compress, Careful]

theorem send_careful (thr : ℕ) (l : Send) : Careful Send.held l (send ext thr l) := by
  cases l with
  | write j b =>
    simp only [send]
    split <;> simp +contextual [Careful, Send.held]
  | _ => simp [send, Careful]

end Programs

/-! ### The server's custody -/

variable (src : Source) (env : RuntimeEnv) (ext : External)

/-- The deserialization threads only hand buffers on. -/
def Skips : Prop :=
  match src with
  | .csv => csvText.skips ∧ env.skipDeserializer
  | .postgres => pgText.skips ∧ env.skipDeserializer
  | .parquet => env.skipDeserializer

/-- A program point of a deserialization thread that only hands buffers on. -/
def Deserializer.Forwards (l : Deserializer src) : Prop :=
  match src, l with
  | .csv, l => Deser.Forwards l
  | .postgres, l => Deser.Forwards l
  | .parquet, l => DeserPQ.Forwards l

/-- What holds of the program points of all threads. -/
def Sound : (t : Tid 4 (parallelism env)) → Local src t.1 → Prop
  | ⟨0, _⟩, l => NoMarker (held src 0) l
  | ⟨1, _⟩, l => NoMarker (held src 1) l ∧ (Skips src env → Deserializer.Forwards src l)
  | ⟨2, _⟩, l => NoMarker Comp.held l ∧ (getCompId env.compressionAlgorithm = 0 → Comp.Forwards l)
  | ⟨3, i⟩, l => NoMarker Send.held l ∧ Send.Errs ext i l

/-- The server's programs are honest as long as no deserialization thread takes an end marker for a
buffer. -/
def custody (bad : (t : Tid 4 (parallelism env)) → Local src t.1 → Prop)
    (h_bad : ∀ t l, sentinelTaken src env t l → bad t l) :
    Custody (machine src env ext) bad where
  held := held src
  wf := Sound src env ext
  honest := by
    rintro ⟨k, i⟩ l h_wf
    match k, i, l, h_wf with
    | 0, i, l, h_wf =>
      cases src with
      | csv => exact readCSV_honest env ext i (bad ⟨0, i⟩) l h_wf
      | postgres => exact readPG_honest env ext (bad ⟨0, i⟩) l h_wf
      | parquet => exact readPQ_honest env ext (bad ⟨0, i⟩) l h_wf
    | 1, i, l, h_wf =>
      have h_one := h_bad ⟨1, i⟩
      cases src with
      | csv =>
        exact (deserializeText_honest env ext csvText (bad ⟨1, i⟩) h_one l h_wf.1).and
          (deserializeText_leads env ext csvText l h_wf.2)
      | postgres =>
        exact (deserializeText_honest env ext pgText (bad ⟨1, i⟩) h_one l h_wf.1).and
          (deserializeText_leads env ext pgText l h_wf.2)
      | parquet =>
        exact (deserializePQ_honest env ext (bad ⟨1, i⟩) h_one l h_wf.1).and
          (deserializePQ_leads env ext l h_wf.2)
    | 2, i, l, h_wf =>
      exact (compress_honest env ext (bad ⟨2, i⟩) l h_wf.1).and (compress_leads env ext l h_wf.2)
    | 3, i, l, h_wf => exact (send_honest ext i (bad ⟨3, i⟩) l h_wf.1).and (send_leads ext i l)

/-- No program of the server touches a buffer it does not hold. -/
theorem prog_careful (t : Tid 4 (parallelism env)) (l : Local src t.1) :
    Careful (held src t.1) l ((machine src env ext).prog t l) := by
  obtain ⟨k, i⟩ := t
  match k, i, l with
  | 0, i, l =>
    cases src with
    | csv => exact readCSV_careful env ext i l
    | postgres => exact readPG_careful env ext l
    | parquet => exact readPQ_careful env ext l
  | 1, i, l =>
    cases src with
    | csv => exact deserializeText_careful env ext csvText l
    | postgres => exact deserializeText_careful env ext pgText l
    | parquet => exact deserializePQ_careful env ext l
  | 2, i, l => exact compress_careful env ext l
  | 3, i, l => exact send_careful ext i l

/-- The pool as a multiset of ids. -/
def pool : Multiset ℤ := (poolIds env : Multiset ℤ)

variable {env} in
theorem mem_pool {b : ℤ} : b ∈ pool env ↔ 0 ≤ b ∧ b < env.buffersInBufferpool := mem_firstIds

theorem pool_nodup : (pool env).Nodup := nodup_firstIds _

theorem held_startPoint (k : Fin 4) : held src k (startPoint src k) = 0 := by
  match k with
  | 0 => cases src <;> rfl
  | 1 => cases src <;> rfl
  | 2 => rfl
  | 3 => rfl

theorem sound_startPoint (t : Tid 4 (parallelism env)) :
    Sound src env ext t (startPoint src t.1) := by
  have h_none : NoMarker (held src t.1) (startPoint src t.1) := by
    simp [NoMarker, held_startPoint]
  obtain ⟨k, i⟩ := t
  match k, i, h_none with
  | 0, _, h_none => exact h_none
  | 1, _, h_none => exact ⟨h_none, fun _ => by cases src <;> trivial⟩
  | 2, _, h_none => exact ⟨h_none, fun _ => trivial⟩
  | 3, i, h_none => exact ⟨h_none, fun _ h => nomatch h⟩

variable {src env ext} in
/-- Every thread starts with empty hands, and the free list holds the whole pool. -/
theorem kept_initial {bad : (t : Tid 4 (parallelism env)) → Local src t.1 → Prop}
    {h_bad : ∀ t l, sentinelTaken src env t l → bad t l} :
    (custody src env ext bad h_bad).Kept (pool env) (initial src env ext) := by
  have h_free : marker ∉ poolIds env := marker_notMem_firstIds _
  have h_held : ∀ t : Tid 4 (parallelism env), held src t.1 (startPoint src t.1) = 0 :=
    fun t => held_startPoint src t.1
  have h_kept := (custody src env ext bad h_bad).kept_initial (s := initial src env ext)
    (sound_startPoint src env ext) h_held h_free
  have h_total : ∑ q ∈ Finset.range 4, ids (initialQueue env q) = pool env := by
    simp [Finset.sum_range_succ, initialQueue, ids_of_notMem h_free, pool]
  rwa [← h_total]

/-! ### The end marker is never an index -/

/-- Every value with which a thread is about to index the pool is the number of a buffer, and so is
every item of the free list. -/
def IndexesInPool (s : State (machine src env ext)) : Prop :=
  (∀ t, ∀ b ∈ touches s t, 0 ≤ b ∧ b < env.buffersInBufferpool) ∧
    ∀ v ∈ s.queue 0, 0 ≤ v ∧ v < env.buffersInBufferpool

variable {src env ext} in
/-- **The end marker is never an index**, in all runs in which no deserialization thread takes it
for its first buffer. -/
theorem indexesInPool_of_reachable {s : State (machine src env ext)}
    (h : Reachable (machine src env ext) (sentinelTaken src env) (initial src env ext) s) :
    IndexesInPool src env ext s := by
  have h_kept := (custody src env ext (sentinelTaken src env) fun _ _ h => h).kept h kept_initial
  refine ⟨fun t b hb => ?_, fun v hv => ?_⟩
  · refine mem_pool.mp (h_kept.mem_pool_of_held (t := t) ?_)
    exact mem_held_of_mem_touches h_kept (fun t l _ => prog_careful src env ext t l) hb
  · refine mem_pool.mp (Multiset.mem_of_le (h_kept.ids_le (q := 0) (by omega)) ?_)
    exact mem_ids.mpr ⟨hv, fun h_eq => h_kept.free (h_eq ▸ hv)⟩

/-- A small server: two deserialization threads and as many buffers as the constructor asks for. -/
def smallEnv : RuntimeEnv where
  compressionAlgorithm := .nocomp
  iformat := 1
  bufferSize := 4
  buffersInBufferpool := 10
  readParallelism := 1
  deserParallelism := 2
  compressionParallelism := 1
  networkParallelism := 1
  skipDeserializer := false
  schema := [⟨.int, 4⟩]

/-- An empty table. -/
def emptyTable : External where
  codecs := storingCodecs

/-- The read thread finds the table empty, pushes its one buffer and an end marker, and the first
deserialization thread takes the buffer. -/
def emptyTableRun : List (Tid 4 (parallelism smallEnv)) :=
  List.replicate 10 (worker 0 0) ++ [worker 1 0, worker 1 0]

/-- The first deserialization thread has just been handed its two buffers. -/
theorem indexesInPool_smallEnv :
    ∃ s, Reachable (machine .csv smallEnv emptyTable) (sentinelTaken .csv smallEnv)
        (initial .csv smallEnv emptyTable) s ∧
      touches s (worker 1 0) = [0, 1] ∧ IndexesInPool .csv smallEnv emptyTable s := by
  obtain ⟨s, h_run, h_touches⟩ := exists_reachable .csv smallEnv emptyTable
    (sentinelTaken .csv smallEnv) emptyTableRun
    (fun s => touches s (worker 1 0) = [0, 1]) (by decide +kernel)
  exact ⟨s, h_run, h_touches, indexesInPool_of_reachable h_run⟩

/-- Without that restriction the end marker gets to be an index: the second deserialization thread
takes it for its first buffer. -/
theorem marker_indexes_pool :
    ¬ ∀ (src : Source) (env : RuntimeEnv) (ext : External), 1 ≤ env.readParallelism →
      1 ≤ env.deserParallelism → 1 ≤ env.compressionParallelism → 1 ≤ env.networkParallelism →
      env.skipDeserializer = false → ∀ s, Reachable (machine src env ext) never
        (initial src env ext) s → IndexesInPool src env ext s := by
  intro h
  obtain ⟨s, h_run, h_touches⟩ := exists_reachable .csv smallEnv emptyTable
    (fun _ _ => False) (emptyTableRun ++ [worker 1 1, worker 1 1])
    (fun s => marker ∈ touches s (worker 1 1)) (by decide +kernel)
  have h_index := h .csv smallEnv emptyTable (by decide) (by decide) (by decide) (by decide) rfl
    s h_run
  exact absurd (h_index.1 _ _ h_touches).1 (by decide)

/-! ### Every buffer has one owner -/

/-- Every id of the pool has one place, and no thread reads or writes a buffer it does not
hold. -/
structure Owned (s : State (machine src env ext)) : Prop where
  /-- An id is once in a queue or once in the hands of a thread, exited threads included. -/
  once : ∀ b : ℤ, 0 ≤ b → b < env.buffersInBufferpool →
    ∑ q ∈ Finset.range 4, (s.queue q).count b +
      ∑ t, (held src t.1 (s.thread t).loc).count b = 1
  /-- The buffers a thread is about to touch are its own. -/
  mine : ∀ t, ∀ b ∈ touches s t, b ∈ held src t.1 (s.thread t).loc
  /-- What a thread does next depends on and changes only the buffers it touches. -/
  careful : ∀ t, Careful (held src t.1) (s.thread t).loc
    ((machine src env ext).prog t (s.thread t).loc)
  /-- A step leaves the buffers the thread does not hold alone. -/
  frame : ∀ t s', Step _ s t s' → ∀ b ∉ held src t.1 (s.thread t).loc,
    s'.mem.pool b = s.mem.pool b

variable {src env ext} in
/-- **Every buffer has one owner**, in all runs in which no deserialization thread takes the end
marker for its first buffer. -/
theorem owned_of_reachable {s : State (machine src env ext)}
    (h : Reachable (machine src env ext) (sentinelTaken src env) (initial src env ext) s) :
    Owned src env ext s := by
  have h_kept := (custody src env ext (sentinelTaken src env) fun _ _ h => h).kept h kept_initial
  have h_careful := prog_careful src env ext
  refine ⟨fun b h_lo h_hi => ?_, fun t b hb => ?_, fun t => h_careful t _, fun t s' hs b hb => ?_⟩
  · have h_mem : b ∈ pool env := mem_pool.mpr ⟨h_lo, h_hi⟩
    exact h_kept.count_eq_one (pool_nodup env) h_mem (ne_marker_of_mem_firstIds h_mem)
  · exact mem_held_of_mem_touches h_kept (fun t l _ => h_careful t l) hb
  · exact pool_eq_of_step h_kept (fun l _ => h_careful _ l) hs hb

/-- The owner of a buffer that has been popped twice, by the reader and by the deserializer. -/
theorem owned_smallEnv :
    ∃ s, Reachable (machine .csv smallEnv emptyTable) (sentinelTaken .csv smallEnv)
        (initial .csv smallEnv emptyTable) s ∧
      held .csv 1 (s.thread (worker 1 0)).loc = {0, 1} ∧ Owned .csv smallEnv emptyTable s := by
  obtain ⟨s, h_run, h_held⟩ := exists_reachable .csv smallEnv emptyTable
    (sentinelTaken .csv smallEnv) emptyTableRun
    (fun s => held .csv 1 (s.thread (worker 1 0)).loc = {0, 1}) (by decide +kernel)
  exact ⟨s, h_run, h_held, owned_of_reachable h_run⟩

/-! ### What one thread sees of a run -/

variable {src env ext} in
/-- **Every thread of the server makes a solo run**, and its pushes stand in the history. -/
theorem exists_solo_of_reachable {s : State (machine src env ext)}
    (h : Reachable (machine src env ext) (sentinelTaken src env) (initial src env ext) s)
    (t : Tid 4 (parallelism env)) :
    ∃ es, Solo 4 (held src t.1) ((machine src env ext).prog t) (sentinelTaken src env t)
        (startPoint src t.1) (initial src env ext).mem es (s.thread t).loc s.mem ∧
      (es.filterMap Event.push).Sublist s.log.reverse :=
  (custody src env ext (sentinelTaken src env) fun _ _ h => h).exists_solo
    (fun t l _ => prog_careful src env ext t l) h kept_initial (pool_nodup env) t

variable {env ext} in
/-- The run of a read thread for the CSV file. -/
theorem exists_solo_readCSV {s : State (machine .csv env ext)}
    (h : Reachable (machine .csv env ext) (sentinelTaken .csv env) (initial .csv env ext) s)
    (i : Fin env.readParallelism) :
    ∃ es, Solo 4 ReadCSV.held (readCSV env ext i) (fun _ => False) .start
        (initial .csv env ext).mem es (s.thread ⟨0, i⟩).loc s.mem ∧
      (es.filterMap Event.push).Sublist s.log.reverse :=
  exists_solo_of_reachable h ⟨0, i⟩

variable {env ext} in
/-- The run of a read thread for the Postgres table. -/
theorem exists_solo_readPG {s : State (machine .postgres env ext)}
    (h : Reachable (machine .postgres env ext) (sentinelTaken .postgres env)
      (initial .postgres env ext) s) (i : Fin env.readParallelism) :
    ∃ es, Solo 4 ReadPG.held (readPG env ext) (fun _ => False) .start
        (initial .postgres env ext).mem es (s.thread ⟨0, i⟩).loc s.mem ∧
      (es.filterMap Event.push).Sublist s.log.reverse :=
  exists_solo_of_reachable h ⟨0, i⟩

variable {env ext} in
/-- The run of a deserialization thread for the CSV file. -/
theorem exists_solo_deserializeCSV {s : State (machine .csv env ext)}
    (h : Reachable (machine .csv env ext) (sentinelTaken .csv env) (initial .csv env ext) s)
    (i : Fin env.deserParallelism) :
    ∃ es, Solo 4 Deser.held (deserializeCSV env ext) Deser.TakesMarker .start
        (initial .csv env ext).mem es (s.thread ⟨1, i⟩).loc s.mem ∧
      (es.filterMap Event.push).Sublist s.log.reverse :=
  exists_solo_of_reachable h ⟨1, i⟩

variable {env ext} in
/-- The run of a deserialization thread for the Postgres table. -/
theorem exists_solo_deserializePG {s : State (machine .postgres env ext)}
    (h : Reachable (machine .postgres env ext) (sentinelTaken .postgres env)
      (initial .postgres env ext) s) (i : Fin env.deserParallelism) :
    ∃ es, Solo 4 Deser.held (deserializePG env ext) Deser.TakesMarker .start
        (initial .postgres env ext).mem es (s.thread ⟨1, i⟩).loc s.mem ∧
      (es.filterMap Event.push).Sublist s.log.reverse :=
  exists_solo_of_reachable h ⟨1, i⟩

variable {env ext} in
/-- The run of a deserialization thread for the Parquet files. -/
theorem exists_solo_deserializePQ {s : State (machine .parquet env ext)}
    (h : Reachable (machine .parquet env ext) (sentinelTaken .parquet env)
      (initial .parquet env ext) s) (i : Fin env.deserParallelism) :
    ∃ es, Solo 4 DeserPQ.held (deserializePQ env ext) DeserPQ.TakesMarker .start
        (initial .parquet env ext).mem es (s.thread ⟨1, i⟩).loc s.mem ∧
      (es.filterMap Event.push).Sublist s.log.reverse :=
  exists_solo_of_reachable h ⟨1, i⟩

end Xdbc.Server
