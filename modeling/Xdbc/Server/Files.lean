import Xdbc.Server.Partitions
import Xdbc.Server.Shares

/-!
# The part files of a table

`PQReader::readData` cuts the numbers of the files in the directory of the table into partitions, and
`readPQ` opens the files of the partitions it takes. The size of a partition is rounded up and only
the last partition ends at the number of files, so the partitions in front of it must not go beyond:
`sum_filesOf_iff` says when the partitions are the files. Then the read threads open each file once,
whichever thread takes which partition (`files_read`).
-/

namespace Xdbc.Server

open Bytes Pipeline

/-! ### Consecutive numbers -/

/-- The numbers from `i` up to `j`. -/
def numbers (i j : ℤ) : Multiset ℤ := ((List.range (j - i).toNat).map fun k : ℕ => i + k : List ℤ)

theorem numbers_of_le {i j : ℤ} (h : j ≤ i) : numbers i j = 0 := by
  rw [numbers, Int.toNat_of_nonpos (by omega)]
  rfl

theorem mem_numbers {i j k : ℤ} : k ∈ numbers i j ↔ i ≤ k ∧ k < j := by
  rw [numbers, Multiset.mem_coe, List.mem_map]
  simp only [List.mem_range]
  constructor
  · rintro ⟨d, hd, rfl⟩
    omega
  · rintro ⟨h_from, h_to⟩
    exact ⟨(k - i).toNat, by omega, by omega⟩

/-- Two ranges, one behind the other. -/
theorem numbers_add {i j k : ℤ} (h : i ≤ j) (h' : j ≤ k) :
    numbers i j + numbers j k = numbers i k := by
  have h_length : (k - i).toNat = (j - i).toNat + (k - j).toNat := by omega
  rw [numbers, numbers, numbers, h_length, List.range_add, List.map_append, List.map_map,
    Multiset.coe_add]
  refine congrArg (fun xs : List ℤ => ((_ ++ xs : List ℤ) : Multiset ℤ))
    (List.map_congr_left fun d _ => ?_)
  dsimp only [Function.comp]
  omega

/-- The first of the numbers. -/
theorem singleton_add_numbers {i j : ℤ} (h : i < j) : {i} + numbers (i + 1) j = numbers i j := by
  have h_one : numbers i (i + 1) = {i} := by
    rw [numbers, add_sub_cancel_left]
    simp
  rw [← h_one]
  exact numbers_add (by omega) (by omega)

section Files

variable (env : RuntimeEnv) (ext : External)

/-! ### What a partition is worth -/

/-- The numbers of the files of a partition. -/
def filesOf (part : ℤ) : Multiset ℤ :=
  if part = marker then 0 else numbers (pqStartOff env ext part) (pqEndOff env ext part)

/-- The files of a partition a thread has still to open. -/
def ReadPQ.ahead : ReadPQ → Multiset ℤ
  | .file p i => numbers i (pqEndOff env ext p)
  | .load p i _ _ => numbers (i + 1) (pqEndOff env ext p)
  | .push p i _ => numbers (i + 1) (pqEndOff env ext p)
  | _ => 0

/-- The file a thread opens next. -/
def ReadPQ.opens : ReadPQ → Multiset ℤ
  | .file p i => if i < pqEndOff env ext p then {i} else 0
  | _ => 0

/-- An exception has left the function of the thread, which ends the process. -/
def ReadPQ.Thrown : ReadPQ → Prop
  | .thrown _ => True
  | _ => False

instance ReadPQ.decThrown (l : ReadPQ) : Decidable l.Thrown := by
  unfold Thrown; split <;> infer_instance

/-- A read thread has thrown. -/
def readerThrown : (t : Tid 4 (parallelism env)) → Local .parquet t.1 → Prop
  | ⟨0, _⟩, l => ReadPQ.Thrown l
  | ⟨1, _⟩, _ => False
  | ⟨2, _⟩, _ => False
  | ⟨3, _⟩, _ => False

instance decReaderThrown (t : Tid 4 (parallelism env)) (l : Local .parquet t.1) :
    Decidable (readerThrown env t l) :=
  match t, l with
  | ⟨0, _⟩, l => ReadPQ.decThrown l
  | ⟨1, _⟩, _ => .isFalse id
  | ⟨2, _⟩, _ => .isFalse id
  | ⟨3, _⟩, _ => .isFalse id

variable {env ext}

/-- A read thread opens the files of the partitions it takes. -/
theorem readPQ_works {σ : Type} (l : ReadPQ) :
    Works (σ := σ) partQueue (filesOf env ext) (ReadPQ.ahead env ext) (ReadPQ.opens env ext)
      ReadPQ.Thrown l (readPQ env ext l) := by
  cases l with
  | popPart =>
    intro v _
    dsimp only
    rw [if_pos rfl, filesOf]
    split
    · rfl
    · exact (zero_add _).trans (zero_add _).symm
  | file p i =>
    simp only [readPQ]
    split
    · next h_lt =>
      -- the next file is opened, or its number is none of this partition
      split
      · exact fun m h => absurd trivial h
      · intro v _
        rw [if_neg (by decide), add_zero, ReadPQ.opens, if_pos h_lt]
        exact singleton_add_numbers h_lt
    · next h_end =>
      intro m _
      rw [ReadPQ.opens, if_neg h_end, zero_add]
      exact (numbers_of_le (not_lt.mp h_end)).symm
  | load p i contents b =>
    intro m h_good
    dsimp only at h_good ⊢
    split at h_good
    · exact absurd trivial h_good
    · next h_fits =>
      rw [if_neg h_fits]
      exact zero_add _
  | push p i b => exact fun _ => zero_add _
  | done => rfl
  | thrown b => exact fun m h => absurd trivial h

variable (env ext) in
/-- The files as jobs of the read threads. -/
def fileJobs : Jobs (machine .parquet env ext) (readerThrown env) partQueue (Multiset ℤ) :=
  partJobs (filesOf env ext) (ReadPQ.ahead env ext : Reader .parquet → _)
    (ReadPQ.opens env ext : Reader .parquet → _) fun _ l => readPQ_works l

/-- A read thread that has left is done. -/
theorem ReadPQ.eq_done {σ : Type} {l : ReadPQ}
    (h : readPQ (σ := σ) env ext l = .leave ∨ readPQ (σ := σ) env ext l = .quit) : l = .done := by
  cases l with
  | done => rfl
  | file p i =>
    simp only [readPQ] at h
    repeat' split at h
    all_goals rcases h with h | h <;> cases h
  | _ => rcases h with h | h <;> cases h

/-! ### When the partitions are the files -/

section Tiles

/-- The bounds of the files that a partition has, as an `int`. -/
theorem pqStartOff_natCast (h_int : ext.numFiles < 2 ^ 31) {i : ℕ}
    (h_le : i * partLength ext.numFiles env.readParallelism ≤ ext.numFiles) :
    pqStartOff env ext i = (i * partLength ext.numFiles env.readParallelism : ℕ) := by
  have h_num : pqFileNum ext = ext.numFiles := toInt32_of_bounds (by omega) (by omega)
  rw [pqStartOff, startOff, h_num, partSize_eq, ← Nat.cast_mul]
  exact toInt32_of_bounds (by omega) (by omega)

theorem pqEndOff_natCast (h_int : ext.numFiles < 2 ^ 31) {i : ℕ}
    (hi : i + 1 < env.readParallelism)
    (h_le : (i + 1) * partLength ext.numFiles env.readParallelism ≤ ext.numFiles) :
    pqEndOff env ext i = ((i + 1) * partLength ext.numFiles env.readParallelism : ℕ) := by
  have h_start : pqStartOff env ext (i + 1 : ℕ) = _ := pqStartOff_natCast h_int h_le
  rw [pqStartOff, startOff, Nat.cast_succ] at h_start
  rw [pqEndOff, endOff, if_neg (by omega)]
  exact h_start

theorem pqEndOff_last {i : ℕ} (hi : i + 1 = env.readParallelism) :
    pqEndOff env ext i = ext.numFiles := by
  rw [pqEndOff, endOff, if_pos (by omega)]

/-- The first partitions are the first files. -/
theorem sum_filesOf_take (h_int : ext.numFiles < 2 ^ 31) {k : ℕ} (hk : k < env.readParallelism)
    (h_le : k * partLength ext.numFiles env.readParallelism ≤ ext.numFiles) :
    ((List.range k).map fun i : ℕ => filesOf env ext i).sum
      = numbers 0 (k * partLength ext.numFiles env.readParallelism : ℕ) := by
  induction k with
  | zero => rw [Nat.zero_mul]; rfl
  | succ k ih =>
    have h_step : k * partLength ext.numFiles env.readParallelism
        ≤ (k + 1) * partLength ext.numFiles env.readParallelism :=
      Nat.mul_le_mul_right _ (Nat.le_succ k)
    have h_ne : (k : ℤ) ≠ marker := by rw [marker]; omega
    rw [List.range_succ, List.map_append, List.sum_append, ih (by omega) (by omega),
      List.map_singleton, List.sum_singleton, filesOf, if_neg h_ne,
      pqStartOff_natCast h_int (by omega), pqEndOff_natCast h_int hk h_le]
    exact numbers_add (by omega) (by omega)

/-- **The partitions are the files** if those in front of the last one do not go beyond. -/
theorem sum_filesOf (h_int : ext.numFiles < 2 ^ 31) (h_pos : 1 ≤ env.readParallelism)
    (h_even : (env.readParallelism - 1) * partLength ext.numFiles env.readParallelism
      ≤ ext.numFiles) :
    ((List.range env.readParallelism).map fun i : ℕ => filesOf env ext i).sum
      = numbers 0 ext.numFiles := by
  obtain ⟨k, hk⟩ := Nat.exists_eq_succ_of_ne_zero (Nat.pos_iff_ne_zero.mp h_pos)
  have h_le : k * partLength ext.numFiles env.readParallelism ≤ ext.numFiles := by
    rw [hk] at h_even ⊢
    exact h_even
  have h_ne : (k : ℤ) ≠ marker := by rw [marker]; omega
  have h_range : List.range env.readParallelism = List.range k ++ [k] := by
    rw [hk, List.range_succ]
  rw [h_range, List.map_append, List.sum_append, sum_filesOf_take h_int (by omega) h_le,
    List.map_singleton, List.sum_singleton, filesOf, if_neg h_ne, pqStartOff_natCast h_int h_le,
    pqEndOff_last hk.symm]
  exact numbers_add (by omega) (by omega)

/-- **The partitions are the files** only then. -/
theorem sum_filesOf_iff (h_small : ext.numFiles + env.readParallelism < 2 ^ 31)
    (h_pos : 1 ≤ env.readParallelism) :
    ((List.range env.readParallelism).map fun i : ℕ => filesOf env ext i).sum
        = numbers 0 ext.numFiles ↔
      (env.readParallelism - 1) * partLength ext.numFiles env.readParallelism
        ≤ ext.numFiles := by
  refine ⟨fun h_sum => ?_, sum_filesOf (by omega) h_pos⟩
  by_contra h_over
  -- the number behind the files lies in a partition in front of the last one
  generalize h_size : partLength ext.numFiles env.readParallelism = size at h_over
  have h_ne : size ≠ 0 := by
    rintro rfl
    simp at h_over
  have h_pos_size : 0 < size := Nat.pos_of_ne_zero h_ne
  have h_part : ext.numFiles / size < env.readParallelism - 1 :=
    (Nat.div_lt_iff_lt_mul h_pos_size).mpr (by omega)
  have h_from : ext.numFiles / size * size ≤ ext.numFiles := Nat.div_mul_le_self _ _
  have h_to : ext.numFiles < (ext.numFiles / size + 1) * size := by
    rw [Nat.mul_comm]
    exact Nat.lt_mul_div_succ _ h_pos_size
  have h_num : pqFileNum ext = ext.numFiles := toInt32_of_bounds (by omega) (by omega)
  generalize ext.numFiles / size = part at h_part h_from h_to
  have h_mem : (ext.numFiles : ℤ) ∈ filesOf env ext part := by
    have h_not : (part : ℤ) ≠ marker := by rw [marker]; omega
    rw [filesOf, if_neg h_not, mem_numbers, pqStartOff, pqEndOff, h_num,
      startOff_natCast h_small (by omega), endOff_natCast _ h_small (by omega),
      if_neg (by omega), h_size]
    exact ⟨Nat.cast_le.mpr h_from, Nat.cast_lt.mpr h_to⟩
  have h_all : (ext.numFiles : ℤ) ∈ numbers 0 ext.numFiles := by
    rw [← h_sum]
    have h_le : filesOf env ext part
        ≤ ((List.range env.readParallelism).map fun i : ℕ => filesOf env ext i).sum :=
      List.le_sum_of_mem (List.mem_map.mpr ⟨part, List.mem_range.mpr (by omega), rfl⟩)
    exact Multiset.mem_of_le h_le h_mem
  exact absurd (mem_numbers.mp h_all).2 (lt_irrefl _)

end Tiles

/-! ### What the read threads open -/

/-- In a state of a run in which the files `opened` have been opened: the file that is opened next
exists, each file has been opened once at most, and all of them have when the read threads have
exited. -/
structure FilesRead (env : RuntimeEnv) (ext : External) (opened : Multiset ℤ)
    (s : State (machine .parquet env ext)) : Prop where
  existing : ∀ t, ∀ i ∈ (fileJobs env ext).look s t, (ext.parquetFile i).isSome
  once : opened ≤ numbers 0 ext.numFiles
  all : (∀ i : Fin env.readParallelism, (s.thread ⟨0, i⟩).Exited) →
    opened = numbers 0 ext.numFiles

/-- The part files of the table are those with the numbers up to the number of files. -/
def Parts (ext : External) : Prop :=
  ∀ i : ℤ, (ext.parquetFile i).isSome ↔ 0 ≤ i ∧ i < ext.numFiles

/-- What a thread opens next is part of what it has to open. -/
theorem ReadPQ.opens_le_ahead (l : ReadPQ) : l.opens env ext ≤ l.ahead env ext := by
  cases l with
  | file p i =>
    rw [ReadPQ.opens]
    split
    · next h_lt =>
      rw [ReadPQ.ahead, ← singleton_add_numbers h_lt]
      exact Multiset.le_add_right _ _
    · exact Multiset.zero_le _
  | _ => exact Multiset.zero_le _

/-- **Every file is opened once** and no other, in every run, if the partitions in front of the last
one do not go beyond the files. -/
theorem files_read (h_parts : Parts ext) (h_pos : 1 ≤ env.readParallelism)
    (h_int : ext.numFiles < 2 ^ 31)
    (h_even : (env.readParallelism - 1) * partLength ext.numFiles env.readParallelism
      ≤ ext.numFiles)
    {s : State (machine .parquet env ext)} {opened : Multiset ℤ}
    (h_does : (fileJobs env ext).Does (initial .parquet env ext) opened s) :
    FilesRead env ext opened s := by
  -- the files of all partitions together are all files, each once
  have h_sum := sum_filesOf h_int h_pos h_even
  have h_init : (fileJobs env ext).total (initial .parquet env ext)
      = ((List.range env.readParallelism).map fun i : ℕ => filesOf env ext i).sum :=
    total_initial (if_pos rfl) rfl
  obtain ⟨h_total, h_stopped⟩ := h_does.total stopped_initial
  rw [h_init, h_sum] at h_total
  refine ⟨?_, h_total ▸ Multiset.le_add_right _ _, fun h_exited => ?_⟩
  · -- the file that a thread is about to open is one of them
    intro t i hi
    have h_todo : (fileJobs env ext).look s t ≤ (fileJobs env ext).total s := by
      refine Jobs.look_le_total fun l => ?_
      obtain ⟨k, j⟩ := t
      match k with
      | 0 => exact ReadPQ.opens_le_ahead l
      | 1 => exact le_rfl
      | 2 => exact le_rfl
      | 3 => exact le_rfl
    have h_mem : i ∈ numbers 0 ext.numFiles := by
      rw [← h_total]
      exact Multiset.mem_add.mpr (.inr (Multiset.mem_of_le h_todo hi))
    exact (h_parts i).mpr (mem_numbers.mp h_mem)
  · -- when the readers have exited, nothing is left
    rw [← h_sum]
    refine done_eq_of_left h_pos (if_pos rfl) rfl h_does fun i => ?_
    have h_done : (s.thread ⟨0, i⟩).loc = ReadPQ.done :=
      ReadPQ.eq_done ((h_stopped ⟨0, i⟩).left (h_exited i))
    rw [h_done]
    exact ⟨rfl, rfl⟩

end Files

/-- Files of one byte. -/
def byteFiles (n : ℕ) : External where
  numFiles := n
  parquetFile i := if 0 ≤ i ∧ i < n then some [80] else none
  codecs := storingCodecs

theorem parts_byteFiles (n : ℕ) : Parts (byteFiles n) := by
  intro i
  change (if 0 ≤ i ∧ i < n then some [80] else none).isSome ↔ _
  split
  · next h => exact iff_of_true rfl h
  · next h => exact iff_of_false Bool.false_ne_true h

/-- As many read threads as partitions. -/
def readersEnv (n : ℕ) : RuntimeEnv :=
  { smallEnv with
    readParallelism := n, deserParallelism := 1, bufferSize := 1, buffersInBufferpool := 24 }

/-- One thread takes both partitions. -/
def bothPartsRun : List (Tid 4 (parallelism (readersEnv 2))) :=
  .replicate 13 (worker 0 0) ++ .replicate 5 (worker 0 1)

/-- One thread opens both files. -/
theorem files_read_byteFiles :
    ∃ s opened, (fileJobs (readersEnv 2) (byteFiles 2)).Does
        (initial .parquet (readersEnv 2) (byteFiles 2)) opened s ∧ opened = numbers 0 2 := by
  obtain ⟨s, h_run, h_exited⟩ := exists_reachable .parquet (readersEnv 2) (byteFiles 2)
    (readerThrown (readersEnv 2)) bothPartsRun
    (fun s => ∀ i : Fin 2, (s.thread ⟨0, i⟩).Exited) (by decide +kernel)
  obtain ⟨opened, h_does⟩ := (fileJobs _ _).exists_does h_run
  exact ⟨s, opened, h_does, (files_read (parts_byteFiles 2) (by decide) (by decide) (by decide)
    h_does).all h_exited⟩

/-- The thread that takes the last two of four partitions comes to file 5. -/
def fifthFileRun : List (Tid 4 (parallelism (readersEnv 4))) := .replicate 6 (worker 0 0)

/-- Of five files in four partitions a thread opens the sixth. -/
theorem files_not_read :
    ¬ ∀ (env : RuntimeEnv) (ext : External), Parts ext → 1 ≤ env.readParallelism →
      ∀ (s : State (machine .parquet env ext)) (opened : Multiset ℤ),
      (fileJobs env ext).Does (initial .parquet env ext) opened s → FilesRead env ext opened s := by
  intro h
  obtain ⟨s, h_run, h_fifth⟩ := exists_reachable .parquet (readersEnv 4) (byteFiles 5)
    (readerThrown (readersEnv 4)) fifthFileRun
    (fun s => 5 ∈ (fileJobs (readersEnv 4) (byteFiles 5)).look s (worker 0 0)) (by decide +kernel)
  obtain ⟨opened, h_does⟩ := (fileJobs _ _).exists_does h_run
  have h_exists := (h _ _ (parts_byteFiles 5) (by decide) s opened h_does).existing _ 5 h_fifth
  exact absurd h_exists (by decide)

end Xdbc.Server
