import Xdbc.Server.Packing
import Xdbc.Bytes.Records

/-!
# Counting the lines of the CSV file

`readData` counts the newlines of the file with `memchr`, a block at a time, and gives the read
threads the partitions of the lines it has counted. The threads read with `getline`, which takes what
stands behind the last newline as a line too.

The blocks do not matter (`wcLoop_eq_wc`). A stream read up to a number of lines gives that many or
all it has (`length_takeLines`), so the partition of a single thread holds the whole file exactly if
the file ends with a newline and its lines can be counted in an `int` (`lines_counted_iff`).
-/

namespace Xdbc.Server

open Bytes Pipeline

/-! ### `wc` -/

/-- `memchr(s, c, n) - s` for the `n` bytes of `s`. -/
def memchr (c : UInt8) (s : List UInt8) : Option ℕ := s.findIdx? (· == c)

theorem memchr_cons (c b : UInt8) (s : List UInt8) :
    memchr c (b :: s) = if b = c then some 0 else (memchr c s).map (· + 1) := by
  rw [memchr, List.findIdx?_cons]
  by_cases hb : b = c
  · rw [if_pos hb, if_pos (beq_iff_eq.mpr hb)]
  · rw [if_neg hb, if_neg (by simpa using hb)]
    rfl

theorem lt_of_memchr {c : UInt8} {s : List UInt8} {i : ℕ} (h : memchr c s = some i) :
    i < s.length := by
  obtain ⟨h_lt, -⟩ := List.findIdx?_eq_some_iff_getElem.mp h
  exact h_lt

/-- The loop over the newlines of what is left of a block. -/
def wcBlock (s : List UInt8) (lines : ℕ) : ℕ :=
  match h : memchr newline s with
  | none => lines
  | some i => wcBlock (s.drop (i + 1)) (lines + 1)
termination_by s.length
decreasing_by
  have h_lt := lt_of_memchr h
  rw [List.length_drop]
  omega

/-- The loop over the blocks that `read` returns. -/
def wcLoop (blocks : List (List UInt8)) : ℕ := blocks.foldl (fun lines buf => wcBlock buf lines) 0

/-- `BUFFER_SIZE` of `wc`. -/
def wcBufferSize : ℕ := 16 * 1024

/-- Nothing is counted where `memchr` finds nothing. -/
theorem count_of_memchr_none {c : UInt8} {s : List UInt8} (h : memchr c s = none) :
    s.count c = 0 := by
  rw [List.count_eq_zero]
  intro h_mem
  have h_all := List.findIdx?_eq_none_iff.mp h c h_mem
  simp at h_all

/-- What `memchr` finds is the first one that counts. -/
theorem count_of_memchr {c : UInt8} {s : List UInt8} {i : ℕ} (h : memchr c s = some i) :
    s.count c = (s.drop (i + 1)).count c + 1 := by
  induction s generalizing i with
  | nil => cases h
  | cons b s ih =>
    rw [memchr_cons] at h
    split at h
    · next hb =>
      cases h
      rw [hb, List.count_cons_self]
      rfl
    · next hb =>
      obtain ⟨j, hj, rfl⟩ := Option.map_eq_some_iff.mp h
      rw [List.count_cons_of_ne hb, ih hj]
      rfl

/-- **The loop over a block** counts its newlines. -/
theorem wcBlock_eq (s : List UInt8) (lines : ℕ) : wcBlock s lines = lines + s.count newline := by
  induction s, lines using wcBlock.induct with
  | case1 s lines h =>
    rw [wcBlock, count_of_memchr_none h]
    split
    · rfl
    · next h_some => rw [h] at h_some; cases h_some
  | case2 s lines i h ih =>
    rw [wcBlock, count_of_memchr h]
    split
    · next h_none => rw [h] at h_none; cases h_none
    · next h_some =>
      rw [h] at h_some
      cases h_some
      rw [ih, Nat.add_assoc, Nat.add_comm 1]

/-- **The blocks do not matter.** -/
theorem wcLoop_eq_wc (blocks : List (List UInt8)) : wcLoop blocks = wc blocks.flatten := by
  have h_fold : ∀ lines, blocks.foldl (fun lines buf => wcBlock buf lines) lines
      = lines + blocks.flatten.count newline := by
    induction blocks with
    | nil => exact fun lines => rfl
    | cons buf blocks ih =>
      intro lines
      rw [List.foldl_cons, ih, wcBlock_eq, List.flatten_cons, List.count_append, Nat.add_assoc]
  rw [wcLoop, h_fold, Nat.zero_add, wc]

/-! ### Reading what has been counted -/

/-- An `int` is less than `2 ^ 31`. -/
theorem toInt32_lt (z : ℤ) : toInt32 z < 2 ^ 31 := by
  have h := Int.bmod_lt (x := z) (m := 2 ^ 32) (by decide)
  rw [toInt32]
  norm_num at h ⊢
  exact h

/-- A number does not become larger as an `int`. -/
theorem toInt32_natCast_le (k : ℕ) : toInt32 k ≤ k := by
  have h_mod : (k : ℤ) % 2 ^ 32 ≤ k := by omega
  have h_nonneg := Int.emod_nonneg (k : ℤ) (b := 2 ^ 32) (by decide)
  rw [toInt32, Int.bmod]
  norm_num at *
  split <;> omega

/-- A stream read up to `k` lines gives `k`, or all it has. -/
theorem length_takeLines (k : ℕ) (file : List UInt8) :
    (takeLines k file).1.length = min k (records file).length := by
  induction k generalizing file with
  | zero => rw [takeLines, Nat.zero_min]; rfl
  | succ k ih =>
    rw [takeLines]
    cases h : getline file with
    | none => rw [records_of_none h]; rfl
    | some r => rw [records_of_some h, List.length_cons, List.length_cons, ih, Nat.succ_min_succ]

section Single

variable {env : RuntimeEnv} {ext : External}

/-- The only partition begins with the file. -/
theorem csvStartOff_zero : csvStartOff env ext 0 = 0 := by
  rw [csvStartOff, startOff, Int.zero_mul]
  rfl

/-- The only partition ends at the number of lines counted. -/
theorem csvEndOff_single (h_one : env.readParallelism = 1) :
    csvEndOff env ext 0 = csvRowNum ext := by
  rw [csvEndOff, endOff, h_one, if_pos (by norm_num)]

theorem length_readPart_single (h_one : env.readParallelism = 1) :
    (readPart env ext ext.file 0).1.length
      = min (csvRowNum ext).toNat (records ext.file).length := by
  have h_part : readPart env ext ext.file 0 = takeLines (csvRowNum ext).toNat ext.file := by
    unfold readPart
    rw [csvStartOff_zero, csvEndOff_single h_one, Int.toNat_zero, skipLines]
    simp only [Nat.cast_zero, Int.sub_zero]
  rw [h_part, length_takeLines]

/-- **The partition holds the records** of the file exactly if all of them end with a newline and
their number is an `int`. -/
theorem length_readPart_single_iff (h_one : env.readParallelism = 1) :
    (readPart env ext ext.file 0).1.length = (records ext.file).length ↔
      Terminated ext.file ∧ wc ext.file < 2 ^ 31 := by
  have h_records := length_records ext.file
  have h_le := toInt32_natCast_le (wc ext.file)
  have h_lt := toInt32_lt (wc ext.file)
  rw [length_readPart_single h_one, csvRowNum]
  change (records ext.file).length = wc ext.file + _ at h_records
  constructor
  · intro h_all
    -- an `int` is never more than the number it was made of
    have h_counted : (records ext.file).length ≤ (toInt32 (wc ext.file)).toNat := by omega
    -- a last record without a newline is one more than `wc` counts
    by_cases h_term : Terminated ext.file
    · rw [if_pos h_term] at h_records
      exact ⟨h_term, by omega⟩
    · rw [if_neg h_term] at h_records
      omega
  · rintro ⟨h_term, h_int⟩
    rw [if_pos h_term] at h_records
    rw [toInt32_of_bounds (by omega) (by omega)]
    omega

/-- The blocks that `read` returns for the file. -/
structure Blocks (blocks : List (List UInt8)) (file : List UInt8) : Prop where
  flatten : blocks.flatten = file
  nonempty : ∀ buf ∈ blocks, buf ≠ []
  size : ∀ buf ∈ blocks, buf.length ≤ wcBufferSize

/-- The partition of the lines that have been counted in the blocks has as many lines as the file
has records, a thread can read it, and when it has, it delivers as many tuples if each line fits a
payload. -/
structure LinesCounted (env : RuntimeEnv) (ext : External) (blocks : List (List UInt8)) :
    Prop where
  part : csvStartOff env ext 0 = 0 ∧ csvEndOff env ext 0 = toInt32 (wcLoop blocks)
  read : (readPart env ext ext.file 0).1.length = (records ext.file).length
  reads : ∀ thr, ext.fileOpens thr = true →
    ∃ (m₀ m : Memory Buffer Sockets) (es : List (Event Buffer)),
      Solo 4 ReadCSV.held (readCSV env ext thr) (fun _ => False) .start m₀ es .done m ∧
      Takes 0 (Full env) es ∧ Event.taken partQueue es = [0]
  delivered : ∀ (thr : ℕ) (m₀ m : Memory Buffer Sockets) (es : List (Event Buffer)),
    Solo 4 ReadCSV.held (readCSV env ext thr) (fun _ => False) .start m₀ es .done m →
    Takes 0 (Full env) es → Event.taken partQueue es = [0] →
    (∀ line ∈ linesTaken env ext es, line.length ≤ env.payloadSize) →
    ((Event.outputs 1 es).map (·.header.totalTuples)).sum = (records ext.file).length

/-- The headers of the buffers announce all texts they hold. -/
theorem sum_totalTuples {groups : List (List (List UInt8))} {bs : List Buffer}
    (h : List.Forall₂ HoldsTexts groups bs) :
    (bs.map (·.header.totalTuples)).sum = groups.flatten.length := by
  induction h with
  | nil => rfl
  | cons h_holds _ ih =>
    rw [List.map_cons, List.sum_cons, ih, h_holds.tuples, List.flatten_cons, List.length_append]

/-- A thread that has taken the only partition has read what is in it. -/
theorem linesTaken_single {es : List (Event Buffer)} (h_taken : Event.taken partQueue es = [0]) :
    linesTaken env ext es = (readPart env ext ext.file 0).1 := by
  rw [linesTaken, h_taken, readParts, List.foldl_cons, List.foldl_nil, List.nil_append]

/-- **The counting agrees with the reading** exactly if nothing stands behind the last newline of
the file and an `int` holds their number. -/
theorem lines_counted_iff (env : RuntimeEnv) (ext : External) (blocks : List (List UInt8))
    (h_one : env.readParallelism = 1) (h_blocks : Blocks blocks ext.file) :
    LinesCounted env ext blocks ↔ Terminated ext.file ∧ wc ext.file < 2 ^ 31 := by
  rw [← length_readPart_single_iff h_one]
  constructor
  · intro h
    exact h.read
  · intro h_read
    refine ⟨⟨csvStartOff_zero, ?_⟩, h_read,
      fun thr h_opens => exists_readCSV_done h_opens (by decide), ?_⟩
    · rw [csvEndOff_single h_one, wcLoop_eq_wc, h_blocks.flatten, csvRowNum]
    · intro thr m₀ m es h_solo h_full h_taken h_short
      obtain ⟨groups, h_packs, h_all⟩ :=
        Packing.Splits.packs_all (readCSV_packs h_solo h_full h_short)
      calc _ = groups.flatten.length := sum_totalTuples h_packs
        _ = _ := by rw [h_all, linesTaken_single h_taken, h_read]

/-- A file of two lines. -/
def splitLines : External where
  file := [55, newline, 56, newline]
  codecs := storingCodecs

/-- Two lines in two blocks, the second of which begins inside the second line. -/
theorem lines_counted_splitLines : LinesCounted slimEnv splitLines [[55, newline, 56], [newline]] :=
  (lines_counted_iff slimEnv splitLines _ rfl ⟨rfl, by decide, by decide⟩).mpr
    ⟨by decide, by decide⟩

/-- A file of one byte, which is no newline. -/
def openLine : External where
  file := [55]
  codecs := storingCodecs

/-- `getline` yields a record that has not been counted. -/
theorem lines_not_counted :
    ¬ ∀ (env : RuntimeEnv) (ext : External) (blocks : List (List UInt8)),
      env.readParallelism = 1 → Blocks blocks ext.file → LinesCounted env ext blocks := by
  intro h
  have h_read := (h slimEnv openLine [[55]] rfl ⟨rfl, by decide, by decide⟩).read
  have h_one : slimEnv.readParallelism = 1 := rfl
  have h_iff := (length_readPart_single_iff h_one).mp h_read
  exact absurd h_iff.1 (by decide)

end Single

end Xdbc.Server
