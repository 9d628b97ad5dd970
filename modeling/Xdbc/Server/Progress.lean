import Xdbc.Server.Tasks
import Xdbc.Pipeline.Progress

/-!
# The server does not lock up

`no_deadlock`: with the capacities the constructor sets, the server does not lock up in a
configuration that is `Roomy`. The constructor asks for twice as many buffers as there are threads,
which is not enough for that:

* a compressor waits for a free buffer with its input in hand, and the deserializers can have filled
  the queues and their hands with all the rest (`deadlock_wideEnv`);
* if all threads of a stage find the counter full, each of them pushes a marker for every thread of
  the next stage, and the queue may have no room for those nobody takes.
-/

namespace Xdbc.Server

open Bytes Pipeline

variable (src : Source) (env : RuntimeEnv) (ext : External)

/-! ### How much a waiting thread holds -/

instance : Decidable (Skips src env) := by
  unfold Skips; cases src <;> infer_instance

/-- The most buffers a thread holds while it waits for room in a queue. -/
def full : ℕ → ℕ
  | 0 => 1
  | 1 => if Skips src env then 1 else 2
  | 2 => if getCompId env.compressionAlgorithm = 0 then 1 else 2
  | _ => 1

/-- The most buffers a thread holds while it waits for an item, and when it has finished. -/
def idle : ℕ → ℕ
  | 1 => 1
  | 2 => 1
  | _ => 0

/-- The stages that take from the free list. -/
def takesFree : ℕ → Prop
  | 0 => True
  | 1 => ¬ Skips src env
  | 2 => getCompId env.compressionAlgorithm ≠ 0
  | _ => False

section Bounded

variable {σ : Type}

theorem readCSV_bounded (thr : ℕ) (h_open : ext.fileOpens thr = true) (l : ReadCSV) :
    Bounded (σ := σ) 4 (ReadCSV.held l).card 1 0 True (readCSV env ext thr l) := by
  cases l with
  | start => simp [readCSV, h_open, Bounded, ReadCSV.held]
  | next r p =>
    simp only [readCSV]
    split
    · split
      · trivial
      · split <;> trivial
    · trivial
  | _ => simp [readCSV, Bounded, ReadCSV.held, partQueue]

theorem readPG_bounded (l : ReadPG) :
    Bounded (σ := σ) 4 (ReadPG.held l).card 1 0 True (readPG env ext l) := by
  cases l with
  | row r rows =>
    cases rows with
    | nil => trivial
    | cons row rows =>
      simp only [readPG]
      split
      · trivial
      · split <;> trivial
  | _ => simp [readPG, Bounded, ReadPG.held, partQueue]

theorem readPQ_bounded (l : ReadPQ) :
    Bounded (σ := σ) 4 (ReadPQ.held l).card 1 0 True (readPQ env ext l) := by
  cases l with
  | file p i =>
    simp only [readPQ]
    split
    · split <;> simp [Bounded, ReadPQ.held]
    · trivial
  | _ => simp [readPQ, Bounded, ReadPQ.held, partQueue]

theorem deserializeText_bounded (X : TextSource) {skips : Prop} [Decidable skips]
    (h_iff : skips ↔ X.skips ∧ env.skipDeserializer) (l : Deser) (h : skips → l.Forwards) :
    Bounded (σ := σ) 4 l.held.card (if skips then 1 else 2) 1 (¬ skips)
      (deserializeText X env ext l) := by
  -- with `skip_deserializer` the thread never has more than the one buffer it forwards
  by_cases h_skip : skips
  · have h_forwards := h h_skip
    cases l with
    | start => simp [deserializeText, ← h_iff, h_skip, Bounded, Deser.held]
    | skipPush b => simp [deserializeText, h_skip, Bounded, Deser.held]
    | done o => cases o <;> simp [deserializeText, Bounded, Deser.held]
    | _ => exact h_forwards.elim
  · cases l with
    | start => simp [deserializeText, ← h_iff, h_skip, Bounded, Deser.held]
    | done o => cases o <;> simp [deserializeText, Bounded, Deser.held]
    | rest d =>
      simp only [deserializeText, if_neg h_skip]
      split
      · trivial
      · split <;> trivial
    | _ => simp [deserializeText, h_skip, Bounded, Deser.held]

theorem deserializePQ_bounded (l : DeserPQ) (h : env.skipDeserializer → l.Forwards) :
    Bounded (σ := σ) 4 l.held.card (if env.skipDeserializer then 1 else 2) 1
      (¬ env.skipDeserializer) (deserializePQ env ext l) := by
  by_cases h_skip : env.skipDeserializer
  · have h_forwards := h h_skip
    cases l with
    | start => simp [deserializePQ, h_skip, Bounded, DeserPQ.held]
    | skipPush b => simp [deserializePQ, h_skip, Bounded, DeserPQ.held]
    | done o => cases o <;> simp [deserializePQ, Bounded, DeserPQ.held]
    | _ => exact h_forwards.elim
  · cases l with
    | start => simp [deserializePQ, h_skip, Bounded, DeserPQ.held]
    | done o => cases o <;> simp [deserializePQ, Bounded, DeserPQ.held]
    | row d =>
      simp only [deserializePQ, if_neg h_skip]
      split <;> trivial
    | rest d =>
      simp only [deserializePQ, if_neg h_skip]
      split <;> trivial
    | _ => simp [deserializePQ, h_skip, Bounded, DeserPQ.held]

theorem compress_bounded (l : Comp)
    (h : getCompId env.compressionAlgorithm = 0 → l.Forwards) :
    Bounded (σ := σ) 4 l.held.card (if getCompId env.compressionAlgorithm = 0 then 1 else 2) 1
      (getCompId env.compressionAlgorithm ≠ 0) (compress env ext l) := by
  by_cases h_id : getCompId env.compressionAlgorithm = 0
  · have h_forwards := h h_id
    cases l with
    | popIn => simp [compress, Bounded, Comp.held]
    | forward b => simp [compress, h_id, Bounded, Comp.held]
    | done => simp [compress, Bounded, Comp.held]
    | _ => exact h_forwards.elim
  · cases l <;> simp [compress, h_id, Bounded, Comp.held]

theorem send_bounded (thr : ℕ) (h_send : ∀ j, ext.sendFails thr j = false) (l : Send)
    (h : Send.Errs ext thr l) :
    Bounded 4 l.held.card 1 0 False (send ext thr l) := by
  cases l with
  | write j b => simp [send, h_send, Bounded]
  | boostError b =>
    obtain ⟨j, h_fails⟩ := h b rfl
    exact absurd h_fails (by simp [h_send])
  | _ => simp [send, Bounded, Send.held]

end Bounded

variable {src env ext} in
/-- How many buffers the server's threads hold while they wait. -/
def hands (h : Undisturbed src env ext)
    (bad : (t : Tid 4 (parallelism env)) → Local src t.1 → Prop)
    (h_bad : ∀ t l, sentinelTaken src env t l → bad t l) :
    Hands (custody src env ext bad h_bad) where
  full := full src env
  idle := idle
  takesFree := takesFree src env
  idle_le k := by
    match k with
    | 0 => exact Nat.zero_le _
    | 1 => simp only [idle, full]; split <;> omega
    | 2 => simp only [idle, full]; split <;> omega
    | _ + 3 => exact Nat.zero_le _
  bounded := by
    rintro ⟨k, i⟩ l h_wf
    match k, i, l, h_wf with
    | 0, i, l, h_wf =>
      cases src with
      | csv => exact readCSV_bounded env ext i (h.opens rfl i i.2) l
      | postgres => exact readPG_bounded env ext l
      | parquet => exact readPQ_bounded env ext l
    | 1, i, l, h_wf =>
      cases src with
      | csv => exact deserializeText_bounded env ext csvText Iff.rfl l h_wf.2
      | postgres => exact deserializeText_bounded env ext pgText Iff.rfl l h_wf.2
      | parquet => exact deserializePQ_bounded env ext l h_wf.2
    | 2, i, l, h_wf => exact compress_bounded env ext l h_wf.2
    | 3, i, l, h_wf => exact send_bounded ext i (h.sends i) l h_wf.2

/-! ### The server does not lock up -/

/-- The constructor does not report a buffer allocation error. -/
def PoolChecked : Prop :=
  ¬ (env.buffersInBufferpool < env.totalWorkers ∨ env.availableBuffersForQueues < env.totalWorkers)

/-- The deserializers cannot take all buffers the compressors need, and the end markers nobody takes
fit into the queues. -/
structure Roomy : Prop where
  compress : getCompId env.compressionAlgorithm ≠ 0 → ¬ Skips src env →
    env.deserParallelism < 2 * capacity env 2 + env.networkParallelism
  deserMarkers : (env.readParallelism - 1) * env.deserParallelism ≤ capacity env 1
  compressMarkers : (env.deserParallelism - 1) * env.compressionParallelism ≤ capacity env 2
  sendMarkers : (env.compressionParallelism - 1) * env.networkParallelism ≤ capacity env 3

variable {env} in
/-- The capacities are what is left of the pool when every thread has a buffer. -/
theorem capacity_eq (h : PoolChecked env) :
    capacity env 2 = (env.buffersInBufferpool - env.totalWorkers) / 4 ∧
      capacity env 3 = capacity env 2 ∧
      capacity env 1 = capacity env 2 + (env.buffersInBufferpool - env.totalWorkers) % 4 := by
  have h_le : env.totalWorkers ≤ env.buffersInBufferpool := not_lt.mp fun h_lt => h (.inl h_lt)
  have h_avail : env.availableBuffersForQueues
      = ((env.buffersInBufferpool - env.totalWorkers : ℕ) : ℤ) := by
    rw [RuntimeEnv.availableBuffersForQueues, Nat.cast_sub h_le]
  have h_div : env.queueCapacityPerComp
      = (((env.buffersInBufferpool - env.totalWorkers) / 4 : ℕ) : ℤ) := by
    rw [RuntimeEnv.queueCapacityPerComp, h_avail]
    exact (Int.ofNat_tdiv _ 4).symm
  have h_mod : env.deserQueueCapacity = (((env.buffersInBufferpool - env.totalWorkers) / 4
      + (env.buffersInBufferpool - env.totalWorkers) % 4 : ℕ) : ℤ) := by
    rw [RuntimeEnv.deserQueueCapacity, h_div, h_avail, Nat.cast_add]
    exact congrArg _ (Int.ofNat_tmod _ 4).symm
  simp only [capacity, h_div, h_mod, toSizeT_natCast, and_self]

variable {src env ext} in
/-- In a roomy configuration the pool has enough buffers. -/
theorem ample (h_staff : Staffed env) (h_pool : PoolChecked env) (h : Undisturbed src env ext)
    (h_room : Roomy src env) {bad : (t : Tid 4 (parallelism env)) → Local src t.1 → Prop}
    {h_bad : ∀ t l, sentinelTaken src env t l → bad t l} :
    Ample (hands h bad h_bad) (pool env).card := by
  obtain ⟨h_two, h_three, h_one⟩ := capacity_eq h_pool
  have h_workers : env.totalWorkers = env.readParallelism + env.deserParallelism
    + env.compressionParallelism + env.networkParallelism := rfl
  have := h_staff.read
  have := h_staff.deser
  have := h_staff.compress
  have := h_staff.send
  rw [PoolChecked, RuntimeEnv.availableBuffersForQueues] at h_pool
  have h_card : (pool env).card = env.buffersInBufferpool := by simp [pool, poolIds, firstIds]
  refine ⟨fun k hk => h_staff.pos k hk, rfl, fun k h_pos hk => ?_, fun k hk => ?_,
    fun j hj h_takes => ?_⟩
  · -- every queue takes at least one buffer
    change 0 < capacity env k
    obtain rfl | rfl | rfl : k = 1 ∨ k = 2 ∨ k = 3 := by omega
    all_goals omega
  · -- and all the markers of the stage before it
    obtain rfl | rfl | rfl : k = 0 ∨ k = 1 ∨ k = 2 := by omega
    · exact h_room.deserMarkers
    · exact h_room.compressMarkers
    · exact h_room.sendMarkers
  · -- full stages before the one that waits, idle ones behind it: together less than the pool
    rw [h_card]
    change ∑ i ∈ Finset.range j, capacity env (i + 1) + ∑ i ∈ Finset.range 4,
      parallelism env i * (if i < j then full src env i else idle i) < env.buffersInBufferpool
    obtain rfl | rfl | rfl | rfl : j = 0 ∨ j = 1 ∨ j = 2 ∨ j = 3 := by omega
    · simp only [Finset.sum_range_succ, Finset.sum_range_zero, parallelism, idle]
      simp
      omega
    · simp only [Finset.sum_range_succ, Finset.sum_range_zero, parallelism, idle, full]
      simp
      omega
    · -- a deserializer holds two buffers, one if it skips
      have h_full : full src env 1 * env.deserParallelism
          < 2 * capacity env 2 + env.networkParallelism + env.deserParallelism := by
        by_cases h_skip : Skips src env
        · simp only [full, if_pos h_skip]; omega
        · have := h_room.compress h_takes h_skip
          simp only [full, if_neg h_skip]; omega
      have h_comm := Nat.mul_comm (full src env 1) env.deserParallelism
      simp only [Finset.sum_range_succ, Finset.sum_range_zero, parallelism, idle]
      simp [full] at h_comm h_full ⊢
      omega
    · exact h_takes.elim

variable {src env ext} in
/-- **The server does not lock up** in a roomy configuration, in all runs in which no
deserialization thread takes the end marker for its first buffer. -/
theorem no_deadlock (h_staff : Staffed env) (h_pool : PoolChecked env)
    (h : Undisturbed src env ext) (h_room : Roomy src env) {s : State (machine src env ext)}
    (h_run : Reachable (machine src env ext) (sentinelTaken src env) (initial src env ext) s) :
    ¬ Deadlock (machine src env ext) s := by
  have h_fits : Fits (initial src env ext) := by
    intro q h_cap
    match q with
    | 0 => exact absurd rfl h_cap
    | 1 => exact Nat.zero_le _
    | 2 => exact Nat.zero_le _
    | 3 => exact Nat.zero_le _
    | _ + 4 => exact absurd rfl h_cap
  obtain ⟨h_kept, h_handed, h_supplied⟩ :=
    (tasks src env ext (sentinelTaken src env) fun _ _ h => h).supplied (S := signals h.opens _ _) h_run
      kept_initial (handed_initial h_staff h.opens) supplied_initial
  exact not_deadlock (signals_clean h) h_kept h_handed (h_fits.of_reachable h_run)
    (fun _ _ _ _ hrun hop hq => h_supplied.ne_nil h_kept hrun hop hq)
    (ample h_staff h_pool h h_room)

/-- Three deserialization threads, one of everything else, and the smallest pool the constructor
accepts. -/
def wideEnv : RuntimeEnv where
  compressionAlgorithm := .codec .zstd
  iformat := 1
  bufferSize := 1
  buffersInBufferpool := 12
  readParallelism := 1
  deserParallelism := 3
  compressionParallelism := 1
  networkParallelism := 1
  skipDeserializer := false
  schema := [⟨.string, 600⟩]

/-- A table of forty short rows. -/
def shortRows : External where
  file := (List.replicate 40 [97, newline]).flatten
  codecs := storingCodecs

/-- The same threads and two buffers more. -/
def ampleEnv : RuntimeEnv := { wideEnv with buffersInBufferpool := 14 }

/-- Every thread but the send thread goes on as long as it can. -/
def ampleRun : List (Tid 4 (parallelism ampleEnv)) :=
  let r : Tid 4 (parallelism ampleEnv) := worker 0 0
  let d : Tid 4 (parallelism ampleEnv) := worker 1 0
  let d' : Tid 4 (parallelism ampleEnv) := worker 1 1
  let d'' : Tid 4 (parallelism ampleEnv) := worker 1 2
  let c : Tid 4 (parallelism ampleEnv) := worker 2 0
  .replicate 12 r ++ .replicate 10 d ++ [d', d''] ++ .replicate 5 c ++ .replicate 8 r ++
    .replicate 12 d ++ .replicate 8 c ++ .replicate 8 r ++ .replicate 12 d ++ .replicate 8 r ++
    [d, d, d', d'] ++ .replicate 8 r ++ [d'', d'', r]

/-- The queues are full, the pool is empty, and all threads wait but the one that sends the
compressed rows. -/
theorem no_deadlock_ampleEnv :
    ∃ s, Reachable (machine .csv ampleEnv shortRows) (sentinelTaken .csv ampleEnv)
        (initial .csv ampleEnv shortRows) s ∧
      (List.range 4).map s.queue = [[], [9, 0], [11, 3], [7, 12]] ∧
      (∀ t, t.1 ≠ 3 → Blocked (machine .csv ampleEnv shortRows) s t) ∧
      ¬ Deadlock (machine .csv ampleEnv shortRows) s := by
  obtain ⟨s, h_run, h_queue, h_blocked⟩ := exists_reachable .csv ampleEnv shortRows
    (sentinelTaken .csv ampleEnv) ampleRun
    (fun s => (List.range 4).map s.queue = [[], [9, 0], [11, 3], [7, 12]] ∧
      ∀ t, t.1 ≠ 3 → Blocked (machine .csv ampleEnv shortRows) s t) (by decide +kernel)
  exact ⟨s, h_run, h_queue, h_blocked, no_deadlock ⟨by decide, by decide, by decide, by decide⟩
    (by rw [PoolChecked]; decide) ⟨fun _ _ _ => rfl, fun _ _ => rfl⟩
    ⟨fun _ _ => by decide, by decide, by decide, by decide⟩ h_run⟩

/-- The read thread fills the input queue, the deserialization threads the next one, and the
compression thread takes a buffer for which it will find no output buffer. -/
def wideRun : List (Tid 4 (parallelism wideEnv)) :=
  let r : Tid 4 (parallelism wideEnv) := worker 0 0
  let d : Tid 4 (parallelism wideEnv) := worker 1 0
  let d' : Tid 4 (parallelism wideEnv) := worker 1 1
  let d'' : Tid 4 (parallelism wideEnv) := worker 1 2
  .replicate 16 r ++ .replicate 2 d ++ .replicate 4 r ++ .replicate 3 d ++ .replicate 4 r ++
    .replicate 6 d ++ .replicate 4 r ++ [d, d', d'] ++ .replicate 4 r ++ [d', d'', d''] ++
    .replicate 4 r ++ [d'', worker 2 0] ++ .replicate 5 d ++ .replicate 4 r ++ [d]

/-- What the constructor checks is not enough: every buffer of `wideEnv` ends up in one of the first
two queues, in the hands of a deserialization thread that waits for room, or as the input of the
compression thread, which waits for a free buffer. -/
theorem deadlock_wideEnv :
    ¬ ∀ (src : Source) (env : RuntimeEnv) (ext : External), Staffed env → PoolChecked env →
      Undisturbed src env ext → ∀ s, Reachable (machine src env ext) never (initial src env ext) s →
      ¬ Deadlock (machine src env ext) s := by
  intro h
  obtain ⟨s, h_run, h_dead⟩ := exists_reachable .csv wideEnv shortRows (fun _ _ => False) wideRun
    (Deadlock (machine .csv wideEnv shortRows)) (by decide +kernel)
  exact h .csv wideEnv shortRows ⟨by decide, by decide, by decide, by decide⟩
    (by rw [PoolChecked]; decide) ⟨fun _ _ _ => rfl, fun _ _ => rfl⟩ s h_run h_dead
end Xdbc.Server
