import Xdbc.Client.Shutdown
import Xdbc.Pipeline.Progress

/-!
# The client does not lock up

`client_no_deadlock`: with the capacities the constructor sets, the client does not lock up in a
configuration that is `Roomy`, as long as no serialization thread forgets a buffer. As with the
server, the constructor asks for twice as many buffers as there are threads, which is not enough:

* a serializer waits for an output buffer with its input in hand, and the decompressors can have
  filled the queues and their hands with all the rest (`client_deadlock`);
* if all threads of a stage find the counter full, each of them pushes a marker for every thread of
  the next stage, and the queue may have no room for those nobody takes.
-/

namespace Xdbc.Client

open Bytes Pipeline

variable (env : RuntimeEnv) (ext : External)

/-! ### How much a waiting thread holds -/

/-- The most buffers a thread holds while it waits for room in a queue. -/
def full : ℕ → ℕ
  | 1 => 2
  | 2 => 2
  | _ => 1

/-- The most buffers a thread holds while it waits for an item, and when it has finished. -/
def idle : ℕ → ℕ
  | 0 => 1
  | 1 => 1
  | 2 => 1
  | _ => 0

/-- The stages that take from the free list. -/
def takesFree : ℕ → Prop
  | 0 => True
  | 1 => True
  | 2 => True
  | _ => False

section Bounded

variable {σ : Type}

theorem receive_bounded (thr : ℕ) (h_connects : ext.connects thr = true) (l : Receive) :
    Bounded (σ := σ) 4 l.held.card 1 1 True (receive ext thr l) := by
  cases l with
  | start => simp [receive, h_connects, Bounded, Receive.held]
  | readSocket ps b => cases ps <;> trivial
  | _ => simp [receive, Bounded, Receive.held]

theorem decompress_bounded (l : Decomp) :
    Bounded (σ := σ) 4 l.held.card 2 1 True (decompress env ext l) := by
  cases l <;> simp [decompress, Bounded, Decomp.held]

theorem serialize_bounded (l : Ser) :
    Bounded (σ := σ) 4 l.held.card 2 1 True (serialize env ext l) := by
  cases l with
  | row d =>
    simp only [serialize]
    repeat' split
    all_goals trivial
  | pqRow d =>
    simp only [serialize]
    repeat' split
    all_goals trivial
  | _ => simp [serialize, Bounded, Ser.held]

theorem write_bounded (thr : ℕ) (l : Write) :
    Bounded 4 l.held.card 1 0 False (write ext thr l) := by
  cases l <;> simp [write, Bounded, Write.held]

end Bounded

variable {env ext} in
/-- How many buffers the client's threads hold while they wait. -/
def hands (h_connected : Connected env ext)
    (bad : (t : Tid 4 (parallelism env)) → Local t.1 → Prop)
    (h_bad : ∀ t l, leaks env t l → bad t l) : Hands (custody env ext bad h_bad) where
  full := full
  idle := idle
  takesFree := takesFree
  idle_le k := by
    match k with
    | 0 => exact le_rfl
    | 1 => exact Nat.le_succ 1
    | 2 => exact Nat.le_succ 1
    | _ + 3 => exact Nat.zero_le _
  bounded := by
    rintro ⟨k, i⟩ l -
    match k, i, l with
    | 0, i, l => exact receive_bounded ext i (h_connected i i.2) l
    | 1, i, l => exact decompress_bounded env ext l
    | 2, i, l => exact serialize_bounded env ext l
    | 3, i, l => exact write_bounded ext i l

/-- The operation takes from no private queue. -/
def TakesShared {L₀ σ : Type} : Op L₀ Buffer σ → Prop
  | .pop q _ => q < 4
  | _ => True

theorem takesShared (t : Tid 4 (parallelism env)) (l : Local t.1) :
    TakesShared ((machine env ext).prog t l) := by
  obtain ⟨k, i⟩ := t
  match k, i, l with
  | 0, i, l =>
    change TakesShared (receive ext i l)
    cases l with
    | start => simp only [receive]; split <;> simp [TakesShared]
    | readSocket ps b => cases ps <;> trivial
    | _ => simp [receive, TakesShared]
  | 1, i, l =>
    change TakesShared (decompress env ext l)
    cases l <;> simp [decompress, TakesShared]
  | 2, i, l =>
    change TakesShared (serialize env ext l)
    cases l with
    | row d =>
      simp only [serialize]
      repeat' split
      all_goals trivial
    | pqRow d =>
      simp only [serialize]
      repeat' split
      all_goals trivial
    | _ => simp [serialize, TakesShared]
  | 3, i, l =>
    change TakesShared (write ext i l)
    cases l <;> simp [write, TakesShared]

/-! ### The client does not lock up -/

/-- The constructor does not report a buffer allocation error. -/
def PoolChecked : Prop :=
  ¬ (env.buffersInBufferpool < env.totalWorkers ∨ env.availableBuffersForQueues < env.totalWorkers)

/-- The decompressors cannot take all buffers the serializers need, and the end markers nobody takes
fit into the queues. -/
structure Roomy : Prop where
  serialize : env.decompParallelism < capacity env 2 + capacity env 3 + env.writeParallelism
  decompMarkers : (env.rcvParallelism - 1) * env.decompParallelism ≤ capacity env 1
  serMarkers : (env.decompParallelism - 1) * env.serParallelism ≤ capacity env 2
  writeMarkers : (env.serParallelism - 1) * env.writeParallelism ≤ capacity env 3

variable {env} in
/-- The capacities are what is left of the pool when every thread has a buffer. -/
theorem capacity_eq (h : PoolChecked env) :
    capacity env 1 = (env.buffersInBufferpool - env.totalWorkers) / 4 ∧
      capacity env 2 = capacity env 1 ∧
      capacity env 3 = capacity env 1 + (env.buffersInBufferpool - env.totalWorkers) % 4 := by
  have h_le : env.totalWorkers ≤ env.buffersInBufferpool := not_lt.mp fun h_lt => h (.inl h_lt)
  have h_avail : env.availableBuffersForQueues
      = ((env.buffersInBufferpool - env.totalWorkers : ℕ) : ℤ) := by
    rw [RuntimeEnv.availableBuffersForQueues, Nat.cast_sub h_le]
  have h_div : env.queueCapacityPerComp
      = (((env.buffersInBufferpool - env.totalWorkers) / 4 : ℕ) : ℤ) := by
    rw [RuntimeEnv.queueCapacityPerComp, h_avail]
    exact (Int.ofNat_tdiv _ 4).symm
  have h_mod : env.serQueueCapacity = (((env.buffersInBufferpool - env.totalWorkers) / 4
      + (env.buffersInBufferpool - env.totalWorkers) % 4 : ℕ) : ℤ) := by
    rw [RuntimeEnv.serQueueCapacity, h_div, h_avail, Nat.cast_add]
    exact congrArg _ (Int.ofNat_tmod _ 4).symm
  simp only [capacity, h_div, h_mod, toSizeT_natCast, and_self]

variable {env ext} in
/-- In a roomy configuration the pool has enough buffers. -/
theorem ample (h_staff : Staffed env) (h_pool : PoolChecked env)
    (h_connected : Connected env ext) (h_room : Roomy env)
    {bad : (t : Tid 4 (parallelism env)) → Local t.1 → Prop}
    {h_bad : ∀ t l, leaks env t l → bad t l} :
    Ample (hands h_connected bad h_bad) (pool env).card := by
  obtain ⟨h_one, h_two, h_three⟩ := capacity_eq h_pool
  have h_workers : env.totalWorkers = env.rcvParallelism + env.decompParallelism
    + env.serParallelism + env.writeParallelism := rfl
  have := h_staff.rcv
  have := h_staff.decomp
  have := h_staff.ser
  have := h_staff.write
  have := h_room.serialize
  rw [PoolChecked, RuntimeEnv.availableBuffersForQueues] at h_pool
  have h_card : (pool env).card = env.buffersInBufferpool := by simp [pool, poolIds, firstIds]
  refine ⟨fun k hk => h_staff.pos k hk, rfl, fun k h_pos hk => ?_, fun k hk => ?_,
    fun j hj h_takes => ?_⟩
  · -- every queue takes at least one buffer
    change 0 < capacity env k
    obtain rfl | rfl | rfl : k = 1 ∨ k = 2 ∨ k = 3 := by omega
    all_goals omega
  · -- and all the markers of the stage before it
    obtain rfl | rfl | rfl : k = 0 ∨ k = 1 ∨ k = 2 := by omega
    · exact h_room.decompMarkers
    · exact h_room.serMarkers
    · exact h_room.writeMarkers
  · -- full stages before the one that waits, idle ones behind it: together less than the pool
    rw [h_card]
    change ∑ i ∈ Finset.range j, capacity env (i + 1) + ∑ i ∈ Finset.range 4,
      parallelism env i * (if i < j then full i else idle i) < env.buffersInBufferpool
    obtain rfl | rfl | rfl | rfl : j = 0 ∨ j = 1 ∨ j = 2 ∨ j = 3 := by omega
    · simp only [Finset.sum_range_succ, Finset.sum_range_zero, parallelism, idle]
      simp
      omega
    · simp only [Finset.sum_range_succ, Finset.sum_range_zero, parallelism, idle, full]
      simp
      omega
    · simp only [Finset.sum_range_succ, Finset.sum_range_zero, parallelism, idle, full]
      simp
      omega
    · exact h_takes.elim

variable {env ext} in
/-- **The client does not lock up** in a roomy configuration, in all runs in which no serialization
thread forgets its output buffer. -/
theorem client_no_deadlock (h_staff : Staffed env) (h_pool : PoolChecked env)
    (h_connected : Connected env ext) (h_room : Roomy env) {s : State (machine env ext)}
    (h_run : Reachable (machine env ext) (leaks env) (initial env ext) s) :
    ¬ Deadlock (machine env ext) s := by
  have h_bad : ∀ t l, leaks env t l → leaks env t l := fun _ _ h => h
  have h_fits : Pipeline.Fits (initial env ext) := by
    intro q h_cap
    match q with
    | 0 => exact absurd rfl h_cap
    | _ + 1 => exact Nat.zero_le _
  obtain ⟨h_kept, h_handed⟩ := (signals h_connected _ h_bad).handed h_run kept_initial
    (handed_initial h_staff h_connected)
  refine not_deadlock (signals_clean h_connected) h_kept h_handed (h_fits.of_reachable h_run)
    (fun t l q f hrun hop hq => ?_) (ample h_staff h_pool h_connected h_room)
  have h_shared := takesShared env ext t l
  rw [hop] at h_shared
  exact absurd h_shared (not_lt.mpr hq)

/-- The buffer goes through the stages, and the end markers follow it. -/
def smallRun : List (Tid 4 (parallelism smallEnv)) :=
  let r : Tid 4 (parallelism smallEnv) := worker 0 0
  let d : Tid 4 (parallelism smallEnv) := worker 1 0
  let s : Tid 4 (parallelism smallEnv) := worker 2 0
  let w : Tid 4 (parallelism smallEnv) := worker 3 0
  .replicate 3 r ++ .replicate 6 d ++ [s] ++ .replicate 6 r ++ .replicate 5 d ++ .replicate 6 s ++
    .replicate 4 w ++ .replicate 5 s ++ .replicate 2 w

/-- The receive thread pushes a buffer, the decompressor takes it, and the receive thread reads the
stream to the end. -/
def receiveRun : List (Tid 4 (parallelism smallEnv)) :=
  let r : Tid 4 (parallelism smallEnv) := worker 0 0
  .replicate 3 r ++ worker 1 0 :: .replicate 6 r

/-- In a small roomy configuration the write thread gets to the end of the table. -/
theorem client_no_deadlock_smallEnv :
    ∃ s, Reachable (machine smallEnv (zstdStream 1)) (leaks smallEnv)
        (initial smallEnv (zstdStream 1)) s ∧
      (s.mem.world 0).map Prod.snd = [[55, newline]] ∧
      ¬ Deadlock (machine smallEnv (zstdStream 1)) s := by
  obtain ⟨s, h_run, h_written⟩ := exists_reachable smallEnv (zstdStream 1) (leaks smallEnv)
    (initial smallEnv (zstdStream 1)) smallRun
    (fun s => (s.mem.world 0).map Prod.snd = [[55, newline]]) (by decide +kernel)
  exact ⟨s, h_run, h_written, client_no_deadlock ⟨by decide, by decide, by decide, by decide⟩
    (by rw [PoolChecked]; decide) (fun _ _ => rfl) ⟨by decide, by decide, by decide, by decide⟩
    h_run⟩

/-- Five decompression threads, one of everything else, and the smallest pool the constructor
accepts. -/
def wideEnv : RuntimeEnv := { smallEnv with buffersInBufferpool := 16, decompParallelism := 5 }

/-- Three buffers are decompressed, of which the serialization thread takes one. Then every
decompression thread decompresses another one and finds the queue full, and the receive thread takes
what is left of the pool. -/
def wideRun : List (Tid 4 (parallelism wideEnv)) :=
  let r : Tid 4 (parallelism wideEnv) := worker 0 0
  let through := .replicate 3 r ++ .replicate 6 (worker 1 0)
  let stuck (d : Tid 4 (parallelism wideEnv)) := .replicate 3 r ++ .replicate 4 d
  [worker 3 0] ++ through ++ .replicate 2 (worker 2 0) ++ through ++ through ++
    stuck (worker 1 0) ++ stuck (worker 1 1) ++ stuck (worker 1 2) ++ stuck (worker 1 3) ++
    stuck (worker 1 4) ++ .replicate 8 r

/-- What the constructor checks is not enough: every buffer of `wideEnv` ends up in one of the first
two queues, in the hands of a thread that waits for room, or as the input of the serialization
thread, which waits for a free buffer. -/
theorem client_deadlock :
    ¬ ∀ (env : RuntimeEnv) (ext : External), Staffed env → PoolChecked env →
      env.skipSerializer = false → Connected env ext →
      ∀ s, Reachable (machine env ext) never (initial env ext) s → ¬ Deadlock (machine env ext) s := by
  intro h
  obtain ⟨s, h_run, h_dead⟩ := exists_reachable wideEnv (zstdStream 11) (fun _ _ => False)
    (initial wideEnv (zstdStream 11)) wideRun (Deadlock (machine wideEnv (zstdStream 11)))
    (by decide +kernel)
  exact h wideEnv (zstdStream 11) ⟨by decide, by decide, by decide, by decide⟩
    (by rw [PoolChecked]; decide) rfl (fun _ _ => rfl) s h_run h_dead

end Xdbc.Client
