import Xdbc.Server.Tasks
import Xdbc.Pipeline.Jobs

/-!
# The partitions and who takes them

The read threads share the partitions. What a partition is worth depends on the data source; this
module says for all of them that what the read threads do, whichever thread takes which partition,
is all that the partitions are worth once the threads have left (`done_eq_of_left`), and part of it
before (`Jobs.Does.total`, `total_initial`).
-/

namespace Xdbc.Server

open Bytes Pipeline

/-! ### Nothing is added to the partition queue -/

section Programs

variable {σ : Type} (env : RuntimeEnv) (ext : External)

theorem readCSV_spares (thr : ℕ) (l : ReadCSV) :
    Spares (σ := σ) partQueue 0 (readCSV env ext thr l) := by
  cases l with
  | start => simp only [readCSV]; split <;> trivial
  | next r p =>
    simp only [readCSV]
    repeat' split
    all_goals trivial
  | _ => simp [readCSV, Spares, partQueue]

theorem readPG_spares (l : ReadPG) : Spares (σ := σ) partQueue 0 (readPG env ext l) := by
  cases l with
  | row r rows =>
    cases rows with
    | nil => trivial
    | cons row rows =>
      simp only [readPG]
      repeat' split
      all_goals trivial
  | _ => simp [readPG, Spares, partQueue]

theorem readPQ_spares (l : ReadPQ) : Spares (σ := σ) partQueue 0 (readPQ env ext l) := by
  cases l with
  | file p i =>
    simp only [readPQ]
    repeat' split
    all_goals trivial
  | _ => simp [readPQ, Spares, partQueue]

theorem deserializeText_spares (X : TextSource) (l : Deser) :
    Spares (σ := σ) partQueue 1 (deserializeText X env ext l) := by
  cases l with
  | start => simp only [deserializeText]; split <;> trivial
  | rest d =>
    simp only [deserializeText]
    repeat' split
    all_goals trivial
  | _ => simp [deserializeText, Spares, partQueue]

theorem deserializePQ_spares (l : DeserPQ) :
    Spares (σ := σ) partQueue 1 (deserializePQ env ext l) := by
  cases l with
  | start => simp only [deserializePQ]; split <;> trivial
  | row d => simp only [deserializePQ]; split <;> trivial
  | rest d => simp only [deserializePQ]; split <;> trivial
  | _ => simp [deserializePQ, Spares, partQueue]

theorem compress_spares (l : Comp) : Spares (σ := σ) partQueue 2 (compress env ext l) := by
  cases l <;> simp [compress, Spares, partQueue]

theorem send_spares (thr : ℕ) (l : Send) : Spares partQueue 3 (send ext thr l) := by
  cases l with
  | write j b => simp only [send]; split <;> trivial
  | _ => simp [send, Spares, partQueue]

end Programs

section Readers

variable {src : Source} {env : RuntimeEnv} {ext : External}

theorem prog_spares (t : Tid 4 (parallelism env)) (l : Local src t.1) :
    Spares partQueue t.1 ((machine src env ext).prog t l) := by
  obtain ⟨k, i⟩ := t
  match k, i, l with
  | 0, i, l =>
    cases src with
    | csv => exact readCSV_spares env ext i l
    | postgres => exact readPG_spares env ext l
    | parquet => exact readPQ_spares env ext l
  | 1, i, l =>
    cases src with
    | csv => exact deserializeText_spares env ext csvText l
    | postgres => exact deserializeText_spares env ext pgText l
    | parquet => exact deserializePQ_spares env ext l
  | 2, i, l => exact compress_spares env ext l
  | 3, i, l => exact send_spares ext i l

/-! ### What the partitions are worth -/

variable {A : Type} [AddCancelCommMonoid A]
  {bad : (t : Tid 4 (parallelism env)) → Local src t.1 → Prop}

/-- A quantity of the read threads; the other threads have none of it. -/
def ofReaders (f : Reader src → A) : (k : Fin 4) → Local src k → A
  | 0 => f
  | _ => fun _ => 0

/-- The partitions as jobs of the read threads. -/
def partJobs (worth : ℤ → A) (todo does : Reader src → A)
    (h_works : ∀ (i : Fin env.readParallelism) l,
      Works partQueue worth todo does (bad ⟨0, i⟩) l (read src env ext i l)) :
    Jobs (machine src env ext) bad partQueue A where
  worth := worth
  todo := ofReaders todo
  does := ofReaders does
  spares := prog_spares
  works := by
    rintro ⟨k, i⟩ l
    have h_polite := prog_polite src env ext ⟨k, i⟩ l
    match k, i, l with
    | 0, i, l => exact h_works i l
    | 1, i, l => exact works_of_idle h_polite rfl
    | 2, i, l => exact works_of_idle h_polite rfl
    | 3, i, l => exact works_of_idle h_polite rfl

variable {worth : ℤ → A} {todo does : Reader src → A}
  {h_works : ∀ (i : Fin env.readParallelism) l,
    Works partQueue worth todo does (bad ⟨0, i⟩) l (read src env ext i l)}
  {s : State (machine src env ext)} {done : A}

theorem stopped_initial (t : Tid 4 (parallelism env)) :
    ((initial src env ext).thread t).Stopped ((machine src env ext).prog t) := trivial

/-- When the threads start, all partitions are in the queue. -/
theorem total_initial (h_marker : worth marker = 0)
    (h_start : todo (startPoint src 0 : Reader src) = 0) :
    (partJobs worth todo does h_works).total (initial src env ext)
      = ((List.range env.readParallelism).map fun i : ℕ => worth i).sum := by
  have h_todo : ∀ t : Tid 4 (parallelism env), ofReaders todo t.1 (startPoint src t.1) = 0 := by
    rintro ⟨k, i⟩
    match k, i with
    | 0, _ => exact h_start
    | 1, _ => rfl
    | 2, _ => rfl
    | 3, _ => rfl
  change ((partitionQueue env.readParallelism).map worth).sum
    + ∑ t : Tid 4 (parallelism env), ofReaders todo t.1 (startPoint src t.1) = _
  rw [Finset.sum_eq_zero fun t _ => h_todo t, add_zero, partitionQueue, List.map_append,
    List.sum_append, List.map_replicate, h_marker, List.sum_replicate, nsmul_zero, add_zero,
    List.map_map, List.map_reverse, List.sum_reverse]
  rfl

/-- Each thread either wants a partition when the threads start, or never does. -/
theorem wants_or_not_startPoint :
    env.readParallelism
      + ∑ t : Tid 4 (parallelism env), (if wants src t.1 (startPoint src t.1) then 0 else 1)
      = Fintype.card (Tid 4 (parallelism env)) := by
  have h_one : ∀ b : Bool, (if b then 1 else 0) + (if b then 0 else 1) = 1 := by decide
  calc _ = ∑ t : Tid 4 (parallelism env), (if wants src t.1 (startPoint src t.1) then 1 else 0)
          + ∑ t : Tid 4 (parallelism env), (if wants src t.1 (startPoint src t.1) then 0 else 1) := by
        rw [sum_wants_startPoint]
    _ = ∑ _t : Tid 4 (parallelism env), 1 := by
        rw [← Finset.sum_add_distrib]
        exact Finset.sum_congr rfl fun t _ => h_one _
    _ = _ := by rw [Finset.sum_const, smul_eq_mul, mul_one, Finset.card_univ]

/-- **All is done** when the read threads have left. -/
theorem done_eq_of_left (h_pos : 0 < env.readParallelism) (h_marker : worth marker = 0)
    (h_start : todo (startPoint src 0 : Reader src) = 0)
    (h_does : (partJobs worth todo does h_works).Does (initial src env ext) done s)
    (h_left : ∀ i : Fin env.readParallelism, todo (s.thread ⟨0, i⟩).loc = 0 ∧
      wants src 0 (s.thread ⟨0, i⟩).loc = false) :
    done = ((List.range env.readParallelism).map fun i : ℕ => worth i).sum := by
  obtain ⟨h_total, -⟩ := h_does.total stopped_initial
  -- no reader asks for another partition, and none has work left
  have h_none : ∀ t : Tid 4 (parallelism env), wants src t.1 (s.thread t).loc = false := by
    rintro ⟨k, i⟩
    match k, i with
    | 0, i => exact (h_left i).2
    | 1, _ => rfl
    | 2, _ => rfl
    | 3, _ => rfl
  have h_todo : ∀ t : Tid 4 (parallelism env), ofReaders todo t.1 (s.thread t).loc = 0 := by
    rintro ⟨k, i⟩
    match k, i with
    | 0, i => exact (h_left i).1
    | 1, _ => rfl
    | 2, _ => rfl
    | 3, _ => rfl
  -- then no partition can be left either
  have h_nil : s.queue partQueue = [] := queue_eq_nil prog_spares (prog_polite src env ext) h_pos
    rfl (marker_notMem_partitions env.readParallelism) stopped_initial
    wants_or_not_startPoint h_does.reachable h_none
  have h_zero : (partJobs worth todo does h_works).total s = 0 := by
    calc _ = (([] : List ℤ).map worth).sum + 0 :=
          congrArg₂ (fun xs a => (xs.map worth).sum + a) h_nil (Finset.sum_eq_zero fun t _ => h_todo t)
      _ = 0 := add_zero 0
  have h_initial : (partJobs worth todo does h_works).total (initial src env ext) = _ :=
    total_initial h_marker h_start
  rw [← h_initial, ← h_total, h_zero, add_zero]

end Readers

end Xdbc.Server
