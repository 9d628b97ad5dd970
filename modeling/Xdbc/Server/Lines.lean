import Xdbc.Server.Markers
import Xdbc.Server.Reading
import Xdbc.Server.Tasks

/-!
# Every line is read once

When the read threads have exited, the lines they have pushed are the lines of the file, unless one
of them has taken a partition its stream was past (`lines_read`). A run in which one thread takes two
partitions loses lines (`lines_lost`).

The runs are not restricted otherwise. A deserialization thread that takes an end marker for a buffer
upsets the custody of the buffers, but it finds a marker only after all read threads have reported
(`told_of_sentinelTaken`), and from then on nobody pushes lines any more (`Told.step`).
-/

namespace Xdbc.Server

open Bytes Pipeline

variable (env : RuntimeEnv) (ext : External)

/-- A read thread takes a partition its stream is past. -/
def stale : (t : Tid 4 (parallelism env)) → Local .csv t.1 → Prop
  | ⟨0, _⟩, l => ReadCSV.Stale env ext l
  | ⟨1, _⟩, _ => False
  | ⟨2, _⟩, _ => False
  | ⟨3, _⟩, _ => False

instance ReadCSV.decStale (l : ReadCSV) : Decidable (ReadCSV.Stale env ext l) := by
  unfold ReadCSV.Stale; split <;> infer_instance

instance (t : Tid 4 (parallelism env)) (l : Local .csv t.1) : Decidable (stale env ext t l) :=
  match t, l with
  | ⟨0, _⟩, l => ReadCSV.decStale env ext l
  | ⟨1, _⟩, _ => instDecidableFalse
  | ⟨2, _⟩, _ => instDecidableFalse
  | ⟨3, _⟩, _ => instDecidableFalse

/-- A step behind which the books need not balance. -/
def astray (t : Tid 4 (parallelism env)) (l : Local .csv t.1) : Prop :=
  stale env ext t l ∨ sentinelTaken .csv env t l

variable {env ext} {ls : List (List UInt8)}

theorem astray_of_sentinelTaken (t : Tid 4 (parallelism env)) (l : Local .csv t.1)
    (h : sentinelTaken .csv env t l) : astray env ext t l := .inr h

/-! ### The ledger of the lines -/

/-- The lines of the CSV file as a ledger of the server. -/
def lineLedger (h_file : LineFile env ext ls) :
    Ledger (custody .csv env ext (astray env ext) astray_of_sentinelTaken)
      (Multiset (List UInt8)) where
  toBooks := lineBooks env ext
  weight_marker q b := if_neg fun h => h.2 rfl
  debit_marker _ _ := rfl
  credit_marker q b := show linesPushed ⟨q, marker, b⟩ = 0 from if_pos (.inl rfl)
  weight_private _ _ _ _ _ := rfl
  valid_private _ _ _ _ _ h := h
  carry_congr := by
    rintro ⟨k, i⟩ l p p' - h
    match k, i, l, h with
    | 0, _, l, h =>
      cases l <;> simp_all [lineBooks, linesCarried, ReadCSV.carry, CsvVars.written, custody, held,
        ReadCSV.held]
    | 1, _, _, _ => rfl
    | 2, _, _, _ => rfl
    | 3, _, _, _ => rfl
  ok_congr := by
    rintro ⟨k, i⟩ l p p' - h h_ok
    match k, i, l, h, h_ok with
    | 0, _, l, h, h_ok => exact ReadCSV.fine_congr h h_ok
    | 1, _, _, _, _ => trivial
    | 2, _, _, _, _ => trivial
    | 3, _, _, _, _ => trivial
  careful t l _ := prog_careful .csv env ext t l
  posts := by
    rintro ⟨k, i⟩ l h_wf -
    match k, i, l, h_wf with
    | 0, i, l, h_wf => exact readCSV_posts_lines h_file i l h_wf fun _ h => .inl h
    | 1, i, l, _ => exact (bystander ⟨1, i⟩ l (by simp)).posts (by simp)
    | 2, i, l, _ => exact (bystander ⟨2, i⟩ l (by simp)).posts (by simp)
    | 3, i, l, _ => exact (bystander ⟨3, i⟩ l (by simp)).posts (by simp)

/-- The lists of a family, put together. -/
theorem sum_map_coe {ι α : Type} (is : List ι) (f : ι → List α) :
    (is.map fun i => (f i : Multiset α)).sum = (is.flatMap f : List α) := by
  rw [← Multiset.coe_bind]
  rfl

/-- The partition queue is worth the file. -/
theorem queueWorth_partitionQueue (h_file : LineFile env ext ls) (h_pos : 0 < env.readParallelism)
    (pool : ℤ → Buffer) :
    (lineBooks env ext).queueWorth pool partQueue (partitionQueue env.readParallelism) = ls := by
  have h_tasks : ∀ i : ℕ, lineWeight env ext partQueue i = partLines env ext i := fun i =>
    if_pos ⟨rfl, by have : marker = -1 := rfl; omega⟩
  have h_markers : lineWeight env ext partQueue marker = 0 := if_neg fun h => h.2 rfl
  rw [Books.queueWorth, partitionQueue, List.map_append, List.map_map, List.map_reverse,
    List.sum_append, List.sum_reverse, List.map_replicate]
  change ((List.range env.readParallelism).map fun i : ℕ => lineWeight env ext partQueue i).sum
    + (List.replicate env.readParallelism (lineWeight env ext partQueue marker)).sum = _
  rw [h_markers, List.sum_replicate, nsmul_zero, add_zero, List.map_congr_left fun i _ => h_tasks i,
    sum_map_coe, h_file.flatMap_all h_pos]

/-- When the threads start, all lines are in the partition queue. -/
theorem balanced_lines (h_file : LineFile env ext ls) (h_pos : 0 < env.readParallelism) :
    (lineLedger h_file).Balanced ls (initial .csv env ext) where
  fit _ := List.length_replicate
  ok t := by
    obtain ⟨k, i⟩ := t
    match k, i with
    | 0, _ => trivial
    | 1, _ => trivial
    | 2, _ => trivial
    | 3, _ => trivial
  valid _ _ _ _ := trivial
  total := by
    -- only the queue of the partitions has lines to read
    have h_carry : ∀ t : Tid 4 (parallelism env),
        linesCarried env ext t (startPoint .csv t.1) (fun _ => emptyBuffer env) = 0 := by
      rintro ⟨k, i⟩
      match k, i with
      | 0, _ => rfl
      | 1, _ => rfl
      | 2, _ => rfl
      | 3, _ => rfl
    have h_queue : ∀ q : ℕ, q ≠ partQueue →
        (lineBooks env ext).queueWorth (fun _ => emptyBuffer env) q (initialQueue env q) = 0 :=
      fun q hq => List.sum_eq_zero fun x hx => by
        obtain ⟨v, -, rfl⟩ := List.mem_map.mp hx
        exact lineWeight_of_ne hq v
    change ∑ q ∈ Finset.range 5, (lineBooks env ext).queueWorth (fun _ => emptyBuffer env) q
        (initialQueue env q)
      + ∑ t, linesCarried env ext t (startPoint .csv t.1) (fun _ => emptyBuffer env)
      + 0 + 0 = ls + 0
    rw [Finset.sum_eq_zero fun t _ => h_carry t, Finset.sum_eq_single partQueue
      (fun q _ hq => h_queue q hq) (fun h => absurd (Finset.mem_range.mpr (by decide)) h)]
    rw [show initialQueue env partQueue = partitionQueue env.readParallelism from rfl,
      queueWorth_partitionQueue h_file h_pos]
    simp

/-! ### When all read threads have reported -/

/-- All read threads have reported, and the lines are pushed. -/
structure Told (ls : List (List UInt8)) (s : State (machine .csv env ext)) : Prop where
  reported : ∀ t : Tid 4 (parallelism env), (t.1 : ℕ) = 0 → (s.thread t).reported = 1
  lines : (s.log.map linesPushed).sum = ls

/-- A read thread that is done has no more lines. -/
theorem ReadCSV.eq_done {σ : Type} {thr : ℕ} {l : ReadCSV}
    (h : readCSV (σ := σ) env ext thr l = .leave) : l = .done := by
  cases l with
  | done => rfl
  | start => simp only [readCSV] at h; split at h <;> cases h
  | next r part =>
    simp only [readCSV] at h
    repeat' split at h
    all_goals cases h
  | _ => cases h

/-- The invariant of the runs in which nothing has gone astray. -/
structure Booked (h_file : LineFile env ext ls) (h_open : Opens .csv env ext)
    (s : State (machine .csv env ext)) : Prop where
  kept : (custody .csv env ext (astray env ext) astray_of_sentinelTaken).Kept (pool env) s
  handed : (signals h_open (astray env ext) astray_of_sentinelTaken).Handed s
  supplied : (tasks .csv env ext (astray env ext) astray_of_sentinelTaken).Supplied
    env.readParallelism s
  balanced : (lineLedger h_file).Balanced ls s

/-- When all read threads have reported, the books say that the lines are pushed. -/
theorem Booked.told {h_file : LineFile env ext ls} {h_open : Opens .csv env ext}
    {s : State (machine .csv env ext)} (h : Booked h_file h_open s) (h_pos : 0 < env.readParallelism)
    (h_reported : ∀ t : Tid 4 (parallelism env), (t.1 : ℕ) = 0 → (s.thread t).reported = 1) :
    Told ls s := by
  -- the threads that read have ended, and no partition is left in the queue
  have h_done : ∀ i : Fin env.readParallelism, (s.thread ⟨0, i⟩).loc = ReadCSV.done := fun i =>
    ReadCSV.eq_done ((h.handed.stopped ⟨0, i⟩).leave (h_reported ⟨0, i⟩ rfl))
  have h_ids : ids (s.queue partQueue) = 0 := h.supplied.ids_eq_zero h_pos fun t => by
    obtain ⟨k, i⟩ := t
    match k, i with
    | 0, i => rw [h_done i]; rfl
    | 1, _ => rfl
    | 2, _ => rfl
    | 3, _ => rfl
  have h_queue : ∀ q : ℕ, (lineBooks env ext).queueWorth s.mem.pool q (s.queue q) = 0 := by
    refine fun q => List.sum_eq_zero fun x hx => ?_
    obtain ⟨v, hv, rfl⟩ := List.mem_map.mp hx
    refine if_neg ?_
    rintro ⟨rfl, hm⟩
    have h_mem := mem_ids.mpr ⟨hv, hm⟩
    rw [h_ids] at h_mem
    exact absurd h_mem (Multiset.notMem_zero v)
  have h_carry : ∀ t, linesCarried env ext t (s.thread t).loc s.mem.pool = 0 := by
    rintro ⟨k, i⟩
    match k, i with
    | 0, i =>
      exact congrArg (fun l => ((ReadCSV.carry env ext s.mem.pool l : List (List UInt8)) :
        Multiset (List UInt8))) (h_done i)
    | 1, _ => rfl
    | 2, _ => rfl
    | 3, _ => rfl
  have h_debits : (lineBooks env ext).debits s.log = 0 := List.sum_eq_zero fun x hx => by
    obtain ⟨e, -, rfl⟩ := List.mem_map.mp hx
    rfl
  -- nothing is carried or queued, so all lines have been pushed
  have h_total := h.balanced.total
  change ∑ q ∈ Finset.range 5, (lineBooks env ext).queueWorth s.mem.pool q (s.queue q)
    + ∑ t, linesCarried env ext t (s.thread t).loc s.mem.pool + 0
    + (s.log.map linesPushed).sum = ls + (lineBooks env ext).debits s.log at h_total
  rw [Finset.sum_eq_zero fun q _ => h_queue q, Finset.sum_eq_zero fun t _ => h_carry t, h_debits,
    add_zero, zero_add, zero_add, add_zero] at h_total
  exact ⟨h_reported, h_total⟩

/-- When a deserialization thread takes an end marker for a buffer, all read threads have
reported. -/
theorem Booked.told_of_sentinelTaken {h_file : LineFile env ext ls} {h_open : Opens .csv env ext}
    {s s' : State (machine .csv env ext)} {t : Tid 4 (parallelism env)}
    (h : Booked h_file h_open s) (h_pos : 0 < env.readParallelism)
    (hstep : Step (machine .csv env ext) s t s')
    (h_taken : sentinelTaken .csv env t (s'.thread t).loc) : Told ls s' := by
  obtain ⟨h_mem, h_log⟩ := marker_of_sentinelTaken (h.kept.wf t) hstep h_taken
  have h_told := h.told h_pos (h.handed.reported_of_marker_mem _ (k := 0) (by decide) h_mem)
  exact ⟨fun u hu => Thread.reported_of_step hstep (h_told.reported u hu), by
    rw [h_log]; exact h_told.lines⟩

/-- Then nobody pushes lines any more. -/
theorem Told.step {s s' : State (machine .csv env ext)} {t : Tid 4 (parallelism env)}
    (h : Told ls s) (hstep : Step (machine .csv env ext) s t s') : Told ls s' := by
  refine ⟨fun u hu => Thread.reported_of_step hstep (h.reported u hu), ?_⟩
  have h_lines := h.lines
  cases hstep with
  | @push l q v l' hrun hop hroom =>
    -- the readers have reported, so somebody else pushes
    have h_stage : (t.1 : ℕ) ≠ 0 := by
      intro h_zero
      have h_one := h.reported t h_zero
      rw [hrun] at h_one
      cases h_one
    have h_by : Bystander env ((machine .csv env ext).prog t l) := bystander t l h_stage
    rw [hop] at h_by
    have h_queue : q = 0 ∨ q = 2 ∨ q = 3 := h_by
    rw [List.map_cons, List.sum_cons, linesPushed_of_ne (by omega), zero_add]
    exact h_lines
  | signal hsig hroom =>
    rw [List.map_cons, List.sum_cons, show linesPushed ⟨_, marker, _⟩ = 0 from if_pos (.inl rfl),
      zero_add]
    exact h_lines
  | _ => exact h_lines

/-- **Step lemma.** -/
theorem Booked.step {h_file : LineFile env ext ls} {h_open : Opens .csv env ext}
    {s s' : State (machine .csv env ext)} {t : Tid 4 (parallelism env)}
    (h : Booked h_file h_open s) (hstep : Step (machine .csv env ext) s t s')
    (h_not : ¬ astray env ext t (s'.thread t).loc) : Booked h_file h_open s' where
  kept := h.kept.step _ hstep h_not
  handed := h.handed.step _ h.kept hstep h_not
  supplied := h.supplied.step h.kept h.handed hstep
  balanced := h.balanced.step h.kept (pool_nodup env) hstep h_not fun _ _ => trivial

/-- **Run lemma.** In every run without stale partitions the books balance, or all read threads have
reported. -/
theorem booked_or_told (h_staff : Staffed env) (h_file : LineFile env ext ls)
    (h_open : Opens .csv env ext) {s : State (machine .csv env ext)}
    (h_run : Reachable (machine .csv env ext) (stale env ext) (initial .csv env ext) s) :
    Booked h_file h_open s ∨ Told ls s := by
  refine h_run.invariant (I := fun s => Booked h_file h_open s ∨ Told ls s) ?_ ?_
  · exact .inl ⟨kept_initial, handed_initial h_staff h_open, supplied_initial,
      balanced_lines h_file h_staff.read⟩
  · rintro s t s' (h_booked | h_told) hstep h_stale
    · by_cases h_taken : sentinelTaken .csv env t (s'.thread t).loc
      · exact .inr (h_booked.told_of_sentinelTaken h_staff.read hstep h_taken)
      · exact .inl (h_booked.step hstep fun h => h.elim h_stale h_taken)
    · exact .inr (h_told.step hstep)

/-- **Every line is read once.** When the read threads have exited, the lines in the buffers they
have pushed are the lines of the file, each of them once: in all runs in which no thread takes a
partition with lines after its stream has left the beginning of the file. -/
theorem lines_read (h_staff : Staffed env) (h_file : LineFile env ext ls)
    (h_open : Opens .csv env ext) {s : State (machine .csv env ext)}
    (h_run : Reachable (machine .csv env ext) (stale env ext) (initial .csv env ext) s)
    (h_exited : ∀ i : Fin env.readParallelism, (s.thread ⟨0, i⟩).Exited) :
    (s.log.map linesPushed).sum = ls := by
  rcases booked_or_told h_staff h_file h_open h_run with h_booked | h_told
  · refine (h_booked.told h_staff.read fun t ht => ?_).lines
    obtain ⟨k, i⟩ := t
    obtain rfl : k = 0 := Fin.ext ht
    exact (h_booked.handed.stopped ⟨0, i⟩).reported (h_exited i) (readCSV_ne_quit (h_open rfl i i.2))
  · exact h_told.lines

/-- Two read threads, and one thread for each other stage. -/
def twoReaders : RuntimeEnv :=
  { smallEnv with readParallelism := 2, deserParallelism := 1, buffersInBufferpool := 16 }

/-- A table of two rows. -/
def twoLines : External where
  file := unlines [[55], [56]]
  codecs := storingCodecs

theorem lineFile_twoLines : LineFile twoReaders twoLines [[55], [56]] :=
  ⟨rfl, by decide, by decide, by decide⟩

/-- Each thread takes one partition. -/
def fairRun : List (Tid 4 (parallelism twoReaders)) :=
  .replicate 2 (worker 0 0) ++ .replicate 10 (worker 0 1) ++ .replicate 10 (worker 0 0)

/-- The first thread takes both partitions. -/
def greedyRun : List (Tid 4 (parallelism twoReaders)) :=
  .replicate 13 (worker 0 0) ++ .replicate 8 (worker 0 1)

/-- Both read threads count before either compares. -/
def racingRun : List (Tid 4 (parallelism twoReaders)) :=
  let r : Tid 4 (parallelism twoReaders) := worker 0 0
  let r' : Tid 4 (parallelism twoReaders) := worker 0 1
  .replicate 2 r ++ .replicate 9 r' ++ .replicate 10 r ++ .replicate 3 r'

/-- Two threads that take one partition each read both lines. -/
theorem lines_read_twoLines :
    ∃ s, Reachable (machine .csv twoReaders twoLines) (stale twoReaders twoLines)
        (initial .csv twoReaders twoLines) s ∧
      (s.log.map linesPushed).sum = ([[55], [56]] : List (List UInt8)) := by
  obtain ⟨s, h_run, h_exited⟩ := exists_reachable .csv twoReaders twoLines
    (stale twoReaders twoLines) fairRun (fun s => ∀ i : Fin 2, (s.thread ⟨0, i⟩).Exited)
    (by decide +kernel)
  exact ⟨s, h_run, lines_read ⟨by decide, by decide, by decide, by decide⟩ lineFile_twoLines
    (fun _ _ _ => rfl) h_run h_exited⟩

/-- A thread that takes both partitions finds its stream at the end of the file when it comes to the
first one. -/
theorem lines_lost :
    ¬ ∀ (env : RuntimeEnv) (ext : External) (ls : List (List UInt8)), Staffed env →
      LineFile env ext ls → Opens .csv env ext → ∀ s, Reachable (machine .csv env ext) never
        (initial .csv env ext) s → (∀ i : Fin env.readParallelism, (s.thread ⟨0, i⟩).Exited) →
      (s.log.map linesPushed).sum = (ls : Multiset (List UInt8)) := by
  intro h
  obtain ⟨s, h_run, h_exited, h_lost⟩ := exists_reachable .csv twoReaders twoLines
    (fun _ _ => False) greedyRun (fun s => (∀ i : Fin 2, (s.thread ⟨0, i⟩).Exited) ∧
      (s.log.map linesPushed).sum = ([[56]] : List (List UInt8))) (by decide +kernel)
  have h_all := h twoReaders twoLines _ ⟨by decide, by decide, by decide, by decide⟩
    lineFile_twoLines (fun _ _ _ => rfl) s h_run h_exited
  rw [h_lost] at h_all
  exact absurd h_all (by decide)

end Xdbc.Server
