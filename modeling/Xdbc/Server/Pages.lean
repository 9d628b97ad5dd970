import Xdbc.Server.Partitions
import Xdbc.Server.Packing
import Xdbc.Server.Shares

/-!
# The pages of a table

`read_pq_copy` cuts a table by the number of the page a row is on, and each partition is a `COPY` of
the rows between two row identifiers. A row identifier is a page and an offset in the page, in
lexicographic order. As offsets begin at 1, a row lies between `(startOff, 0)` and `(endOff, 0)`
exactly if its page does (`between_iff`), and every page lies in one partition
(`existsUnique_part`); the last partition has the pages that came after `getMaxCtId`.

So the results of the queries together are the table, and the read threads together receive them,
whichever thread takes which partition (`pages_tiled`).
-/

namespace Xdbc.Server

open Bytes Pipeline

/-! ### Row identifiers -/

/-- A row of a table: its `ctid`, a page and an offset, and the text `COPY` sends for it. -/
structure TableRow where
  page : ℕ
  offset : ℕ
  text : List UInt8
  deriving DecidableEq

/-- `ctid BETWEEN (lo, 0) AND (hi, 0)`. -/
def TableRow.Between (lo hi : ℤ) (row : TableRow) : Prop :=
  toLex (lo, 0) ≤ toLex ((row.page : ℤ), row.offset) ∧
    toLex ((row.page : ℤ), row.offset) ≤ toLex (hi, 0)

instance (lo hi : ℤ) : DecidablePred (TableRow.Between lo hi) :=
  fun _ => inferInstanceAs (Decidable (_ ∧ _))

/-- The rows that tables have: offsets begin at 1, and the largest page number is not used. -/
structure TableRow.Stored (row : TableRow) : Prop where
  page : row.page < 2 ^ 32 - 1
  offset : 1 ≤ row.offset
  text : row.text ≠ []

/-- The bounds are the bounds of the pages. -/
theorem TableRow.between_iff {row : TableRow} (h : 1 ≤ row.offset) {lo hi : ℤ} :
    row.Between lo hi ↔ lo ≤ row.page ∧ row.page < hi := by
  unfold Between
  rw [Prod.Lex.toLex_le_toLex, Prod.Lex.toLex_le_toLex]
  dsimp only
  -- an offset is at least 1, so the page decides
  constructor
  · rintro ⟨h_lo, h_hi⟩
    refine ⟨?_, ?_⟩
    · rcases h_lo with h_lt | ⟨h_eq, -⟩
      · exact h_lt.le
      · exact h_eq.le
    · rcases h_hi with h_lt | ⟨-, h_zero⟩
      · exact h_lt
      · omega
  · rintro ⟨h_lo, h_hi⟩
    refine ⟨?_, .inl h_hi⟩
    rcases h_lo.lt_or_eq with h_lt | h_eq
    · exact .inl h_lt
    · exact .inr ⟨h_eq, Nat.zero_le _⟩

/-- `COPY` sends the rows between its bounds, one after the other. -/
def Copies (ext : External) (table : Multiset TableRow) : Prop :=
  ∀ lo hi : ℤ, 0 ≤ lo → 0 ≤ hi →
    (ext.copyData lo hi : Multiset (List UInt8)) = (table.filter (TableRow.Between lo hi)).map (·.text)

/-! ### Every page is in one partition -/

/-- The partition of a page. -/
theorem existsUnique_part (size : ℕ) {parts : ℕ} (h_pos : 0 < parts) (page : ℕ) :
    ∃! i : ℕ, i < parts ∧ i * size ≤ page ∧ (i + 1 = parts ∨ page < (i + 1) * size) := by
  have h_exists : ∃ i : ℕ, i < parts ∧ i * size ≤ page ∧ (i + 1 = parts ∨ page < (i + 1) * size) := by
    by_cases h_last : (parts - 1) * size ≤ page
    · exact ⟨parts - 1, by omega, h_last, .inl (by omega)⟩
    · -- the page is in front of the last partition
      have h_size : 0 < size := Nat.pos_of_ne_zero fun h => h_last (by rw [h]; simp)
      have h_div : page / size < parts - 1 := (Nat.div_lt_iff_lt_mul h_size).mpr (by omega)
      refine ⟨page / size, by omega, Nat.div_mul_le_self _ _, .inr ?_⟩
      rw [Nat.mul_comm]
      exact Nat.lt_mul_div_succ page h_size
  -- of two partitions the first one ends before the second begins
  have h_apart : ∀ i j : ℕ, i < j → j < parts → j * size ≤ page →
      (i + 1 = parts ∨ page < (i + 1) * size) → False := by
    intro i j h_lt hj h_from h_to
    have h_le : (i + 1) * size ≤ j * size := Nat.mul_le_mul_right size h_lt
    omega
  obtain ⟨i, hi, h_from, h_to⟩ := h_exists
  refine ⟨i, ⟨hi, h_from, h_to⟩, ?_⟩
  rintro j ⟨hj, h_from', h_to'⟩
  rcases Nat.lt_trichotomy i j with h_lt | rfl | h_lt
  · exact (h_apart i j h_lt hj h_from' h_to).elim
  · rfl
  · exact (h_apart j i h_lt hi h_from h_to').elim

section Pages

variable {env : RuntimeEnv} {ext : External}

/-- The bounds of the query for partition `i`. -/
def pgStartOff (env : RuntimeEnv) (ext : External) (i : ℤ) : ℤ :=
  startOff ext.maxCtId env.readParallelism i

def pgEndOff (env : RuntimeEnv) (ext : External) (i : ℤ) : ℤ :=
  endOff ext.maxCtId env.readParallelism (2 ^ 32 - 1) i

/-- **Every row is in one partition.** -/
theorem existsUnique_between {m : ℕ} (h_max : ext.maxCtId = m)
    (h_small : m + env.readParallelism < 2 ^ 31) (h_pos : 0 < env.readParallelism) {row : TableRow}
    (h_row : row.Stored) :
    ∃! i : ℕ, i < env.readParallelism ∧ row.Between (pgStartOff env ext i) (pgEndOff env ext i) := by
  have h_page := h_row.page
  have h_iff : ∀ i : ℕ, (i < env.readParallelism ∧
      row.Between (pgStartOff env ext i) (pgEndOff env ext i)) ↔
      i < env.readParallelism ∧ i * partLength m env.readParallelism ≤ row.page ∧
        (i + 1 = env.readParallelism ∨ row.page < (i + 1) * partLength m env.readParallelism) := by
    intro i
    refine and_congr_right fun hi => ?_
    rw [TableRow.between_iff h_row.offset, pgStartOff, pgEndOff, h_max, startOff_natCast h_small hi,
      endOff_natCast _ h_small hi]
    refine and_congr Nat.cast_le ?_
    -- the last partition has no upper bound
    by_cases h_last : i + 1 = env.readParallelism
    · rw [if_pos h_last]
      exact iff_of_true (by omega) (.inl h_last)
    · rw [if_neg h_last, Nat.cast_lt]
      exact ⟨.inr, fun h => h.resolve_left h_last⟩
  simp only [h_iff]
  exact existsUnique_part _ h_pos row.page

/-- Items that each belong to one of several classes are put together again. -/
theorem sum_filter_of_existsUnique {ι α : Type} (is : Finset ι) (p : ι → α → Prop)
    [∀ i, DecidablePred (p i)] {xs : Multiset α} (h : ∀ x ∈ xs, ∃! i, i ∈ is ∧ p i x) :
    ∑ i ∈ is, xs.filter (p i) = xs := by
  induction xs using Multiset.induction with
  | empty => exact Finset.sum_eq_zero fun i _ => rfl
  | cons x xs ih =>
    obtain ⟨i, ⟨h_mem, h_class⟩, h_only⟩ := h x (Multiset.mem_cons_self x xs)
    have h_one : ∑ j ∈ is, (if p j x then {x} else 0) = ({x} : Multiset α) := by
      rw [Finset.sum_eq_single i, if_pos h_class]
      · intro j hj h_ne
        exact if_neg fun h_p => h_ne (h_only j ⟨hj, h_p⟩)
      · exact fun h_not => absurd h_mem h_not
    calc _ = ∑ j ∈ is, ((if p j x then {x} else 0) + xs.filter (p j)) :=
          Finset.sum_congr rfl fun j _ => by rw [Multiset.filter_cons]
      _ = {x} + xs := by
          rw [Finset.sum_add_distrib, h_one, ih fun y hy => h y (Multiset.mem_cons_of_mem hy)]
      _ = x ::ₘ xs := Multiset.singleton_add x xs

/-! ### What the read threads receive -/

/-- The rows of a partition a thread has still to receive. -/
def ReadPG.ahead : ReadPG → Multiset (List UInt8)
  | .row _ rows => (rows.takeWhile (· ≠ []) : List (List UInt8))
  | .flushPush _ _ rows => (rows.takeWhile (· ≠ []) : List (List UInt8))
  | .flushPop _ _ rows => (rows.takeWhile (· ≠ []) : List (List UInt8))
  | .copy _ _ rows => (rows.takeWhile (· ≠ []) : List (List UInt8))
  | _ => 0

/-- The row a thread receives next. -/
def ReadPG.receives : ReadPG → Multiset (List UInt8)
  | .row _ (text :: _) => if text = [] then 0 else {text}
  | _ => 0

variable (env ext) in
/-- The rows of a partition. -/
def rowsOf (part : ℤ) : Multiset (List UInt8) :=
  if part = marker then 0 else (pgRows env ext part : List (List UInt8))

/-- A read thread receives the rows of the partitions it takes. -/
theorem readPG_works {σ : Type} (bad : ReadPG → Prop) (l : ReadPG) :
    Works (σ := σ) partQueue (rowsOf env ext) ReadPG.ahead ReadPG.receives bad l
      (readPG env ext l) := by
  cases l with
  | popPart r =>
    intro v _
    dsimp only
    rw [if_pos rfl, rowsOf]
    split
    · rfl
    · exact zero_add _
  | row r rows =>
    cases rows with
    | nil => exact fun _ _ => rfl
    | cons row rows =>
      simp only [readPG]
      split
      · next h_nil =>
        -- the empty text ends the `COPY`
        intro m _
        rw [ReadPG.ahead, ReadPG.receives, List.takeWhile_cons_of_neg (by simp [h_nil]),
          if_pos h_nil]
        rfl
      · next h_row =>
        -- pushed or copied, the row was received
        have h_ahead : ∀ l' : ReadPG,
            l'.ahead = (rows.takeWhile (· ≠ []) : List (List UInt8)) →
            (ReadPG.row r (row :: rows)).receives + l'.ahead
              = (ReadPG.row r (row :: rows)).ahead := by
          intro l' h_eq
          rw [h_eq, ReadPG.ahead, ReadPG.receives, List.takeWhile_cons_of_pos (by simp [h_row]),
            if_neg h_row]
          rfl
        split <;> exact fun m _ => h_ahead _ rfl
  | copy r row rows => exact fun m _ => zero_add _
  | _ => simp [readPG, Works, ReadPG.ahead, ReadPG.receives, partQueue]

variable (env ext) in
/-- The rows of the table as jobs of the read threads. -/
def rowJobs : Jobs (machine .postgres env ext) never partQueue (Multiset (List UInt8)) :=
  partJobs (rowsOf env ext) (ReadPG.ahead : Reader .postgres → _)
    (ReadPG.receives : Reader .postgres → _) fun _ l => readPG_works _ l

/-- A read thread that has left is done. -/
theorem ReadPG.eq_done {σ : Type} {l : ReadPG}
    (h : readPG (σ := σ) env ext l = .leave ∨ readPG (σ := σ) env ext l = .quit) : l = .done := by
  cases l with
  | done => rfl
  | row r rows =>
    cases rows with
    | nil => rcases h with h | h <;> cases h
    | cons row rows =>
      simp only [readPG] at h
      repeat' split at h
      all_goals rcases h with h | h <;> cases h
  | _ => rcases h with h | h <;> cases h

/-- The bounds of the partitions are page numbers. -/
theorem pgStartOff_nonneg {m : ℕ} (h_max : ext.maxCtId = m)
    (h_small : m + env.readParallelism < 2 ^ 31) {i : ℕ} (hi : i < env.readParallelism) :
    0 ≤ pgStartOff env ext i ∧ 0 ≤ pgEndOff env ext i := by
  rw [pgStartOff, pgEndOff, h_max, startOff_natCast h_small hi, endOff_natCast _ h_small hi]
  refine ⟨Nat.cast_nonneg _, ?_⟩
  split
  · norm_num
  · exact Nat.cast_nonneg _

/-- The results of the queries together are the table. -/
theorem sum_rowsOf {m : ℕ} (h_max : ext.maxCtId = m) (h_small : m + env.readParallelism < 2 ^ 31)
    (h_pos : 0 < env.readParallelism) {table : Multiset TableRow} (h_table : ∀ row ∈ table, row.Stored)
    (h_copies : Copies ext table) :
    ((List.range env.readParallelism).map fun i : ℕ => rowsOf env ext i).sum
      = table.map (·.text) := by
  -- the `COPY` of a partition returns its rows, none of them empty
  have h_part : ∀ i ∈ Finset.range env.readParallelism, rowsOf env ext (i : ℤ)
      = (table.filter (TableRow.Between (pgStartOff env ext i) (pgEndOff env ext i))).map
        (·.text) := by
    intro i hi
    obtain ⟨h_lo, h_hi⟩ := pgStartOff_nonneg h_max h_small (Finset.mem_range.mp hi)
    have h_rows := h_copies _ _ h_lo h_hi
    have h_ne : (i : ℤ) ≠ marker := by rw [marker]; omega
    have h_all : ∀ text ∈ ext.copyData (pgStartOff env ext i) (pgEndOff env ext i),
        decide (text ≠ []) = true := by
      intro text h_mem
      rw [← Multiset.mem_coe, h_rows, Multiset.mem_map] at h_mem
      obtain ⟨row, h_row, rfl⟩ := h_mem
      exact decide_eq_true (h_table row (Multiset.mem_of_mem_filter h_row)).text
    rw [rowsOf, if_neg h_ne, ← h_rows]
    exact congrArg _ (List.takeWhile_eq_self_iff.mpr h_all)
  -- every row lies in one partition
  have h_union : ∑ i ∈ Finset.range env.readParallelism,
      table.filter (TableRow.Between (pgStartOff env ext i) (pgEndOff env ext i)) = table := by
    refine sum_filter_of_existsUnique _
      (fun (i : ℕ) (row : TableRow) => row.Between (pgStartOff env ext i) (pgEndOff env ext i))
      fun row h_row => ?_
    simp only [Finset.mem_range]
    exact existsUnique_between h_max h_small h_pos (h_table row h_row)
  calc _ = ∑ i ∈ Finset.range env.readParallelism, rowsOf env ext (i : ℤ) := rfl
    _ = ∑ i ∈ Finset.range env.readParallelism,
          (table.filter (TableRow.Between (pgStartOff env ext i) (pgEndOff env ext i))).map
            (·.text) := Finset.sum_congr rfl h_part
    _ = (∑ i ∈ Finset.range env.readParallelism,
          table.filter (TableRow.Between (pgStartOff env ext i) (pgEndOff env ext i))).map
            (·.text) := (map_sum (Multiset.mapAddMonoidHom fun row : TableRow => row.text) _ _).symm
    _ = _ := by rw [h_union]

/-- The partitions tile the table: the bounds are computed without an overflow, every row is in one
partition, and what the read threads receive is part of the table, and all of it when they have
exited. -/
structure PagesTiled (env : RuntimeEnv) (ext : External) : Prop where
  exact : ∀ i < env.readParallelism, ∀ z ∈ [partSize ext.maxCtId env.readParallelism,
    i * partSize ext.maxCtId env.readParallelism,
    (i + 1) * partSize ext.maxCtId env.readParallelism], toInt32 z = z
  once : ∀ row : TableRow, row.Stored →
    ∃! i : ℕ, i < env.readParallelism ∧ row.Between (pgStartOff env ext i) (pgEndOff env ext i)
  received : ∀ table : Multiset TableRow, (∀ row ∈ table, row.Stored) → Copies ext table →
    ∀ (s : State (machine .postgres env ext)) (received : Multiset (List UInt8)),
      (rowJobs env ext).Does (initial .postgres env ext) received s →
      received ≤ table.map (·.text) ∧
        ((∀ i : Fin env.readParallelism, (s.thread ⟨0, i⟩).Exited) →
          received = table.map (·.text))

/-- **The partitions tile the table**, if its pages and the partitions can be counted in an
`int`. -/
theorem pages_tiled (env : RuntimeEnv) (ext : External) (h_pos : 1 ≤ env.readParallelism)
    (h_nonneg : 0 ≤ ext.maxCtId) (h_small : ext.maxCtId + env.readParallelism < 2 ^ 31) :
    PagesTiled env ext := by
  obtain ⟨m, h_max⟩ := Int.eq_ofNat_of_zero_le h_nonneg
  rw [h_max] at h_small
  have h_small : m + env.readParallelism < 2 ^ 31 := by exact_mod_cast h_small
  refine ⟨?_, fun row h_row => existsUnique_between h_max h_small h_pos h_row, ?_⟩
  · -- the products fit into an `int`
    intro i hi z hz
    have h_exact : ∀ j ≤ env.readParallelism,
        toInt32 (j * partSize m env.readParallelism) = j * partSize m env.readParallelism := by
      intro j hj
      rw [toInt32_mul_partLength h_small hj, partSize_eq, Nat.cast_mul]
    rw [h_max] at hz
    simp only [List.mem_cons, List.not_mem_nil, or_false] at hz
    rcases hz with rfl | rfl | rfl
    · simpa using h_exact 1 h_pos
    · exact h_exact i hi.le
    · exact_mod_cast h_exact (i + 1) hi
  · -- what the threads have received and what is left make up the table
    intro table h_table h_copies s received h_does
    have h_sum := sum_rowsOf h_max h_small h_pos h_table h_copies
    have h_init : (rowJobs env ext).total (initial .postgres env ext)
        = ((List.range env.readParallelism).map fun i : ℕ => rowsOf env ext i).sum :=
      total_initial (if_pos rfl) rfl
    obtain ⟨h_total, h_stopped⟩ := h_does.total stopped_initial
    refine ⟨?_, fun h_exited => ?_⟩
    · rw [← h_sum, ← h_init]
      exact h_total ▸ Multiset.le_add_right _ _
    · rw [← h_sum]
      refine done_eq_of_left h_pos (if_pos rfl) rfl h_does fun i => ?_
      have h_done : (s.thread ⟨0, i⟩).loc = ReadPG.done :=
        ReadPG.eq_done ((h_stopped ⟨0, i⟩).left (h_exited i))
      rw [h_done]
      exact ⟨rfl, rfl⟩

/-- A table with one row on each of two pages, and one that came later. -/
def threePages : Multiset TableRow :=
  {⟨0, 1, [55, newline]⟩, ⟨1, 2, [56, newline]⟩, ⟨5, 1, [57, newline]⟩}

/-- The table when only the first two pages had been counted. -/
def grownTable : External where
  maxCtId := 1
  copyData lo hi := [(⟨0, 1, [55, newline]⟩ : TableRow), ⟨1, 2, [56, newline]⟩,
    ⟨5, 1, [57, newline]⟩].filter (TableRow.Between lo hi) |>.map (·.text)
  codecs := storingCodecs

theorem stored_threePages : ∀ row ∈ threePages, row.Stored := by
  simp only [threePages, Multiset.insert_eq_cons, Multiset.mem_cons, Multiset.mem_singleton,
    forall_eq_or_imp, forall_eq]
  exact ⟨⟨by decide, by decide, by decide⟩, ⟨by decide, by decide, by decide⟩,
    ⟨by decide, by decide, by decide⟩⟩

end Pages

/-- Two read threads. -/
def twoQueries : RuntimeEnv := { slimEnv with readParallelism := 2, buffersInBufferpool := 32 }

/-- The second thread takes its partition first, and both write into the queue in turn. -/
def twoQueriesRun : List (Tid 4 (parallelism twoQueries)) :=
  .replicate 3 (worker 0 1) ++ .replicate 7 (worker 0 0) ++ .replicate 13 (worker 0 1) ++
    .replicate 8 (worker 0 0)

/-- Each of two threads sends a query, and the second receives the row that came later. -/
theorem pages_tiled_grownTable :
    PagesTiled twoQueries grownTable ∧ Copies grownTable threePages ∧
      grownTable.copyData (pgStartOff twoQueries grownTable 0) (pgEndOff twoQueries grownTable 0)
        = [[55, newline]] ∧
      grownTable.copyData (pgStartOff twoQueries grownTable 1) (pgEndOff twoQueries grownTable 1)
        = [[56, newline], [57, newline]] ∧
      ∃ s received, (rowJobs twoQueries grownTable).Does
          (initial .postgres twoQueries grownTable) received s ∧
        (∀ i : Fin 2, (s.thread ⟨0, i⟩).Exited) ∧
        received = {[55, newline], [56, newline], [57, newline]} := by
  have h_tiled := pages_tiled twoQueries grownTable (by decide) (by decide) (by decide)
  have h_copies : Copies grownTable threePages := fun _ _ _ _ => rfl
  obtain ⟨s, h_run, h_exited⟩ := exists_reachable .postgres twoQueries grownTable
    (fun _ _ => False) twoQueriesRun (fun s => ∀ i : Fin 2, (s.thread ⟨0, i⟩).Exited)
    (by decide +kernel)
  obtain ⟨received, h_does⟩ := (rowJobs twoQueries grownTable).exists_does h_run
  exact ⟨h_tiled, h_copies, by decide, by decide, s, received, h_does, h_exited,
    (h_tiled.received threePages stored_threePages h_copies s received h_does).2 h_exited⟩

end Xdbc.Server
