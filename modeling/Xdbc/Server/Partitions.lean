import Xdbc.Server.Tasks
import Xdbc.Pipeline.Ledger

/-!
# The partitions of the CSV file

`readData` cuts the file into one partition for each read thread. If the file consists of lines and
the computation of the offsets does not overflow (`LineFile`), the partitions make up the file
(`LineFile.flatMap_all`).
-/

namespace Xdbc.Server

open Bytes Pipeline

/-! ### The lines of a partition -/

section Partition

variable (env : RuntimeEnv) (ext : External)

/-- The lines of partition `v`. -/
def partLines (v : ℤ) : List (List UInt8) :=
  ((lines ext.file).take (csvEndOff env ext v).toNat).drop (csvStartOff env ext v).toNat

/-- The file consists of newline-terminated lines, each of which fits a payload, and their number
leaves room for the computation of the offsets. -/
structure LineFile (ls : List (List UInt8)) : Prop where
  file : ext.file = unlines ls
  newline : ∀ line ∈ ls, newline ∉ line
  short : ∀ line ∈ ls, line.length + 1 ≤ env.payloadSize
  small : ls.length + env.readParallelism < 2 ^ 31

/-- The number of lines of all partitions but the last. -/
def partLength (n parallelism : ℕ) : ℕ := n / parallelism + if 0 < n % parallelism then 1 else 0

variable {env ext} {ls : List (List UInt8)}

theorem LineFile.lines (h : LineFile env ext ls) : lines ext.file = ls := by
  rw [h.file, lines_unlines h.newline]

theorem count_newline_unlines (h : ∀ line ∈ ls, newline ∉ line) :
    (unlines ls).count newline = ls.length := by
  induction ls with
  | nil => rfl
  | cons line ls ih =>
    obtain ⟨h_first, h_rest⟩ := List.forall_mem_cons.mp h
    rw [unlines_cons, List.count_append, List.count_cons_self, ih h_rest,
      List.count_eq_zero.mpr h_first, List.length_cons, Nat.zero_add]

theorem LineFile.csvRowNum (h : LineFile env ext ls) : csvRowNum ext = ls.length := by
  have h_small := h.small
  rw [Server.csvRowNum, wc, h.file, count_newline_unlines h.newline]
  exact toInt32_of_bounds (by omega) (by omega)

theorem partSize_eq (n parallelism : ℕ) :
    partSize n parallelism = (partLength n parallelism : ℤ) := by
  rw [partSize, partLength, ← Int.ofNat_tmod, ← Int.ofNat_tdiv]
  split
  · next h => rw [if_pos (by exact_mod_cast h)]; push_cast; rfl
  · next h => rw [if_neg (by exact_mod_cast h)]; simp

theorem partLength_mul_le (n parallelism : ℕ) :
    partLength n parallelism * parallelism ≤ n + parallelism := by
  have h := Nat.div_mul_le_self n parallelism
  rw [partLength, Nat.add_mul]
  split
  · omega
  · omega

/-- **The bounds do not overflow** where the rows and the partitions together can be counted. -/
theorem mul_partLength_lt {n parallelism i : ℕ} (h_small : n + parallelism < 2 ^ 31)
    (hi : i ≤ parallelism) : i * partLength n parallelism < 2 ^ 31 := by
  have h_mul := partLength_mul_le n parallelism
  have h_le := Nat.mul_le_mul_right (partLength n parallelism) hi
  rw [Nat.mul_comm parallelism] at h_le
  omega

theorem toInt32_mul_partLength {n parallelism i : ℕ} (h_small : n + parallelism < 2 ^ 31)
    (hi : i ≤ parallelism) :
    toInt32 (i * partSize n parallelism) = (i * partLength n parallelism : ℕ) := by
  have h_lt := mul_partLength_lt h_small hi
  rw [partSize_eq, ← Nat.cast_mul]
  exact toInt32_of_bounds (by omega) (by omega)

theorem startOff_natCast {n parallelism i : ℕ} (h_small : n + parallelism < 2 ^ 31)
    (hi : i < parallelism) : startOff n parallelism i = (i * partLength n parallelism : ℕ) :=
  toInt32_mul_partLength h_small hi.le

theorem endOff_natCast {n parallelism i : ℕ} (last : ℤ) (h_small : n + parallelism < 2 ^ 31)
    (hi : i < parallelism) :
    endOff n parallelism last i = if i + 1 = parallelism then last
      else ((i + 1) * partLength n parallelism : ℕ) := by
  rw [endOff]
  by_cases h_last : i + 1 = parallelism
  · rw [if_pos (by omega), if_pos h_last]
  · rw [if_neg (by omega), if_neg h_last, ← toInt32_mul_partLength h_small hi, Nat.cast_succ]

theorem LineFile.startOff (h : LineFile env ext ls) {i : ℕ} (hi : i < env.readParallelism) :
    csvStartOff env ext i = (i * partLength ls.length env.readParallelism : ℕ) := by
  rw [csvStartOff, h.csvRowNum, startOff_natCast h.small hi]

theorem LineFile.endOff (h : LineFile env ext ls) {i : ℕ} (hi : i < env.readParallelism) :
    csvEndOff env ext i = (if i + 1 = env.readParallelism then ls.length
      else (i + 1) * partLength ls.length env.readParallelism : ℕ) := by
  rw [csvEndOff, h.csvRowNum, endOff_natCast _ h.small hi]
  split <;> rfl

/-- The first partitions make up the beginning of the file. -/
theorem LineFile.flatMap_partLines (h : LineFile env ext ls) {k : ℕ}
    (hk : k < env.readParallelism) :
    (List.range k).flatMap (fun i : ℕ => partLines env ext (i : ℤ))
      = ls.take (k * partLength ls.length env.readParallelism) := by
  induction k with
  | zero => simp
  | succ k ih =>
    have h_le := Nat.mul_le_mul_right (partLength ls.length env.readParallelism) (Nat.le_succ k)
    rw [List.range_succ, List.flatMap_append, ih (by omega), List.flatMap_singleton, partLines,
      h.lines, h.startOff (by omega), h.endOff (by omega), if_neg (by omega), Int.toNat_natCast,
      Int.toNat_natCast]
    conv_rhs => rw [← List.take_append_drop (k * partLength ls.length env.readParallelism)
      (ls.take ((k + 1) * partLength ls.length env.readParallelism)), List.take_take,
      Nat.min_eq_left h_le]

/-- **The partitions make up the file.** -/
theorem LineFile.flatMap_all (h : LineFile env ext ls) (h_pos : 0 < env.readParallelism) :
    (List.range env.readParallelism).flatMap (fun i : ℕ => partLines env ext (i : ℤ)) = ls := by
  obtain ⟨k, hk⟩ := Nat.exists_eq_succ_of_ne_zero h_pos.ne'
  rw [hk, List.range_succ, List.flatMap_append, h.flatMap_partLines (by omega),
    List.flatMap_singleton, partLines, h.lines, h.startOff (by omega), h.endOff (by omega),
    if_pos hk.symm, Int.toNat_natCast, Int.toNat_natCast, List.take_length]
  exact List.take_append_drop _ _

end Partition

end Xdbc.Server
