import Xdbc.Server.Shutdown
import Xdbc.Pipeline.Tasks

/-!
# The partition queue

The partition queue is a task queue of the read threads: it is filled with the partitions and one end
marker for each of them, and only they take from it (`tasks`).
-/

namespace Xdbc.Server

open Bytes Pipeline

/-! ### The threads that want a partition -/

/-- The thread has not taken its end marker of the partitions. -/
def ReadCSV.wants : ReadCSV → Bool
  | .last _ => false
  | .lastPush _ => false
  | .done => false
  | _ => true

/-- The thread has not taken its end marker of the partitions. -/
def ReadPG.wants : ReadPG → Bool
  | .last _ => false
  | .lastPush _ => false
  | .done => false
  | _ => true

/-- The thread has not taken its end marker of the partitions. -/
def ReadPQ.wants : ReadPQ → Bool
  | .done => false
  | _ => true

/-- The read threads are the only ones that want partitions. -/
def wants (src : Source) : (k : Fin 4) → Local src k → Bool
  | 0 => match src with
    | .csv => ReadCSV.wants
    | .postgres => ReadPG.wants
    | .parquet => ReadPQ.wants
  | _ => fun _ => false

/-! ### Every program is polite -/

section Programs

variable {σ : Type} (env : RuntimeEnv) (ext : External)

theorem readCSV_polite (thr : ℕ) (l : ReadCSV) :
    Polite (σ := σ) 4 partQueue ReadCSV.wants l (readCSV env ext thr l) := by
  cases l with
  | start =>
    simp only [readCSV]
    split <;> simp [Polite, ReadCSV.wants, partQueue]
  | popPart r =>
    refine ⟨fun _ => ⟨rfl, fun v => ?_⟩, fun h => absurd rfl h⟩
    dsimp only
    split <;> rfl
  | next r p =>
    simp only [readCSV]
    split
    · split
      · exact fun _ => rfl
      · split <;> exact fun _ => rfl
    · exact fun _ => rfl
  | _ => simp [readCSV, Polite, ReadCSV.wants, partQueue, CsvVars.copyLine]

theorem readPG_polite (l : ReadPG) :
    Polite (σ := σ) 4 partQueue ReadPG.wants l (readPG env ext l) := by
  cases l with
  | popPart r =>
    refine ⟨fun _ => ⟨rfl, fun v => ?_⟩, fun h => absurd rfl h⟩
    dsimp only
    split <;> rfl
  | row r rows =>
    cases rows with
    | nil => exact fun _ => rfl
    | cons row rows =>
      simp only [readPG]
      split
      · exact fun _ => rfl
      · split <;> exact fun _ => rfl
  | _ => simp [readPG, Polite, ReadPG.wants, partQueue, PgVars.copyRow]

theorem readPQ_polite (l : ReadPQ) :
    Polite (σ := σ) 4 partQueue ReadPQ.wants l (readPQ env ext l) := by
  cases l with
  | popPart =>
    refine ⟨fun _ => ⟨rfl, fun v => ?_⟩, fun h => absurd rfl h⟩
    dsimp only
    split <;> rfl
  | file p i =>
    simp only [readPQ]
    split
    · split <;> simp [Polite, ReadPQ.wants, partQueue]
    · exact fun _ => rfl
  | load p i contents b =>
    intro m
    dsimp only
    split <;> rfl
  | _ => simp [readPQ, Polite, ReadPQ.wants]

theorem deserializeText_polite (X : TextSource) (l : Deser) :
    Polite (σ := σ) 4 partQueue (fun _ => false) l (deserializeText X env ext l) := by
  cases l with
  | start =>
    simp only [deserializeText]
    split <;> simp [Polite, partQueue]
  | rest d =>
    simp only [deserializeText]
    split
    · exact fun _ => rfl
    · split <;> exact fun _ => rfl
  | _ => simp [deserializeText, Polite, partQueue]

theorem deserializePQ_polite (l : DeserPQ) :
    Polite (σ := σ) 4 partQueue (fun _ => false) l (deserializePQ env ext l) := by
  cases l with
  | start =>
    simp only [deserializePQ]
    split <;> simp [Polite, partQueue]
  | row d =>
    simp only [deserializePQ]
    split <;> exact fun _ => rfl
  | rest d =>
    simp only [deserializePQ]
    split <;> exact fun _ => rfl
  | _ => simp [deserializePQ, Polite, partQueue]

theorem compress_polite (l : Comp) :
    Polite (σ := σ) 4 partQueue (fun _ => false) l (compress env ext l) := by
  cases l <;> simp [compress, Polite, partQueue]

theorem send_polite (thr : ℕ) (l : Send) :
    Polite 4 partQueue (fun _ => false) l (send ext thr l) := by
  cases l with
  | write j b =>
    simp only [send]
    split <;> exact fun _ => rfl
  | _ => simp [send, Polite, partQueue]

end Programs

/-! ### The server's tasks -/

variable (src : Source) (env : RuntimeEnv) (ext : External)

/-- Only the read threads take partitions. -/
theorem prog_polite (t : Tid 4 (parallelism env)) (l : Local src t.1) :
    Polite 4 partQueue (wants src t.1) l ((machine src env ext).prog t l) := by
  obtain ⟨k, i⟩ := t
  match k, i, l with
  | 0, i, l =>
    cases src with
    | csv => exact readCSV_polite env ext i l
    | postgres => exact readPG_polite env ext l
    | parquet => exact readPQ_polite env ext l
  | 1, i, l =>
    cases src with
    | csv => exact deserializeText_polite env ext csvText l
    | postgres => exact deserializeText_polite env ext pgText l
    | parquet => exact deserializePQ_polite env ext l
  | 2, i, l => exact compress_polite env ext l
  | 3, i, l => exact send_polite ext i l

/-- The partition queue is a task queue. -/
def tasks (bad : (t : Tid 4 (parallelism env)) → Local src t.1 → Prop)
    (h_bad : ∀ t l, sentinelTaken src env t l → bad t l) :
    Tasks (custody src env ext bad h_bad) partQueue where
  wants := wants src
  le := le_rfl
  polite t l _ := prog_polite src env ext t l

theorem marker_notMem_partitions (parallelism : ℕ) :
    marker ∉ (List.range parallelism).reverse.map fun i : ℕ => (i : ℤ) := by
  intro h
  obtain ⟨i, -, hi⟩ := List.mem_map.mp h
  have : marker = -1 := rfl
  omega

/-- When the threads start, the read threads want a partition. -/
theorem sum_wants_startPoint :
    ∑ t : Tid 4 (parallelism env), (if wants src t.1 (startPoint src t.1) then 1 else 0)
      = env.readParallelism := by
  rw [Fintype.sum_sigma, Fin.sum_univ_four]
  calc _ = ∑ _i : Fin env.readParallelism, 1 + 0 + 0 + 0 :=
        congrArg₂ (· + ·) (congrArg₂ (· + ·) (congrArg₂ (· + ·)
          (Finset.sum_congr rfl fun i _ => by cases src <;> rfl)
          (Finset.sum_eq_zero fun i _ => rfl)) (Finset.sum_eq_zero fun i _ => rfl))
          (Finset.sum_eq_zero fun i _ => rfl)
    _ = env.readParallelism := by simp

variable {src env ext} in
/-- The partition queue starts with one marker for each read thread. -/
theorem supplied_initial {bad : (t : Tid 4 (parallelism env)) → Local src t.1 → Prop}
    {h_bad : ∀ t l, sentinelTaken src env t l → bad t l} :
    (tasks src env ext bad h_bad).Supplied env.readParallelism (initial src env ext) :=
  Tasks.supplied_initial rfl (marker_notMem_partitions env.readParallelism)
    (sum_wants_startPoint src env)

end Xdbc.Server
