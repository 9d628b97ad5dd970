import Xdbc.Client.Progress
import Xdbc.Optimizer.Heuristics
import Xdbc.Server.Progress

/-!
# The pools of an optimized configuration

`find_best_config` gives three buffers to every worker, and the constructors of server and client
ask for two. But `optimize` changes the numbers of workers behind it and leaves the pools as they
are: a deserializer gets as many workers as the reader if nothing is deserialized, a serializer as
many as the writer if the target is pandas, and a Spark client reads from a pool of a fixed size.

Whether there is still room depends on how the workers are spread (`checked_overrides_iff`). A stage
that is much slower than the others gets all of them (`findBestConfig_slowTable`), so there is room
for every table of throughputs exactly if one of the sides has few workers to give
(`poolsFit_iff`).
-/

namespace Xdbc.Optimizer.Heuristics

/-! ### Environments -/

/-- A system data is copied from or to. -/
inductive System where
  | csv
  | parquet
  | postgres
  | pandas
  | spark
  deriving DecidableEq

/-- What `optimize` reads of an environment. -/
structure Env where
  serverCpu : ℚ
  clientCpu : ℚ
  /-- In MB/s; 0 is no limit. -/
  network : ℕ
  src : System
  srcFormat : ℕ
  target : System
  targetFormat : ℕ

/-- `upper_bounds` of the loader in mode 2, for target and source: `read` and `write`. -/
def upperBounds : System → System → Option (ℚ × ℚ)
  | .postgres, .postgres => some (1000, 5000)
  | .spark, .postgres => some (1000, 7000)
  | .pandas, .csv => some (5000, 5000)
  | .csv, .csv => some (5000, 3000)
  | .csv, .postgres => some (1000, 1400)
  | .pandas, .postgres => some (1000, 5000)
  | _, _ => none

namespace Env

variable (env : Env)

/-- `net`. -/
def net : ℕ := if env.network = 0 then 10000 else env.network

def maxTotalWorkersServer : ℕ := ⌊env.serverCpu * (12 / 10)⌋₊

def maxTotalWorkersClient : ℕ := ⌊env.clientCpu * (12 / 10)⌋₊

/-- `params`, if upper bounds are defined. The ratios come from `get_cratios`. -/
def params (ratio : CompressionLib → ℚ) : Option Params :=
  (upperBounds env.target env.src).map fun bounds =>
    { f0 := 3 / 10
      f0_nonneg := threeTenths_nonneg
      f0_lt_one := threeTenths_lt_one
      upperBounds := [("read", bounds.1), ("write", bounds.2), ("send", env.net), ("rcv", env.net)]
      upperBounds_ne_nil := List.cons_ne_nil _ _
      ratio := ratio
      maxTotalWorkersServer := env.maxTotalWorkersServer
      maxTotalWorkersClient := env.maxTotalWorkersClient }

/-- Neither side looks into the data. -/
def SkipsSer (considerSkipSer : Bool) : Prop :=
  considerSkipSer = true ∧
    ((env.src = env.target ∧ env.target = .csv) ∨ (env.src = env.target ∧ env.target = .parquet))

instance (considerSkipSer : Bool) : Decidable (env.SkipsSer considerSkipSer) := instDecidableAnd

end Env

/-! ### `optimize` -/

/-- The configuration server and client are started with. -/
structure RunConfig where
  par : Config
  compressionLib : CompressionLib
  bufferSize : ℕ
  serverBuffpoolSize : ℕ
  clientBuffpoolSize : ℕ
  format : ℕ
  skipSer : Bool
  skipDeser : Bool

namespace RunConfig

/-- The stage `k` gets `n` workers. -/
def setPar (config : RunConfig) (k : Stage) (n : ℕ) : RunConfig :=
  { config with par := Function.update config.par k n }

/-- The result of the optimizer, with `compression_lib` and `format`. -/
def ofBest (env : Env) (best : BestConfig) : RunConfig where
  par := best.par
  compressionLib := .nocomp
  bufferSize := best.bufferSize
  serverBuffpoolSize := best.serverBuffpoolSize
  clientBuffpoolSize := best.clientBuffpoolSize
  format := if env.srcFormat = 2 ∨ env.targetFormat = 2 then 2 else 1
  skipSer := false
  skipDeser := false

/-- `skip_ser` and `skip_deser`. -/
def setSkip (env : Env) (considerSkipSer : Bool) (config : RunConfig) : RunConfig :=
  if env.SkipsSer considerSkipSer then
    let config := { config with skipSer := true, skipDeser := true }
    let config := config.setPar .deser (config.par .read)
    config.setPar .ser (config.par .decomp)
  else { config with skipSer := false, skipDeser := false }

/-- The peculiarities of the targets. -/
def setTarget (env : Env) (config : RunConfig) : RunConfig :=
  let config :=
    if env.target = .pandas then
      let config := (config.setPar .send 1).setPar .rcv 1
      config.setPar .ser (config.par .write)
    else config
  let config :=
    if env.target = .spark ∧ env.src = .postgres then { config with serverBuffpoolSize := 30000 }
    else config
  let config := if env.target = .spark then config.setPar .write 1 else config
  if env.target = .postgres then { config.setPar .write 1 with format := 1 } else config

end RunConfig

/-- What `optimize` makes of the result of the optimizer. -/
def overrides (env : Env) (considerSkipSer : Bool) (best : BestConfig) : RunConfig :=
  .setTarget env (.setSkip env considerSkipSer (.ofBest env best))

/-- `optimize`, up to the start of server and client. -/
def optimize (env : Env) (ratio : CompressionLib → ℚ) (considerSkipSer : Bool)
    (throughputData : Stage → ℚ) (fuel : ℕ) : Option RunConfig :=
  (env.params ratio).bind fun params =>
  (findBestConfig params throughputData .nocomp fuel).map (overrides env considerSkipSer)

/-- What `load_throughput` returns: both ends of the network have the same rate. -/
structure ThroughputTable where
  rate : Stage → ℚ
  nonneg : ∀ k, 0 ≤ rate k
  net : rate .send = rate .rcv

/-! ### The constructors -/

/-- What the compressor makes of the name of a library. -/
def CompressionLib.algorithm : CompressionLib → Server.Compression
  | .nocomp => .nocomp
  | .zstd => .codec .zstd
  | .lz4 => .codec .lz4
  | .lzo => .codec .lzo
  | .snappy => .codec .snappy

namespace RunConfig

variable (config : RunConfig) (schema : List SchemaAttribute)

/-- The settings of the server. -/
def serverEnv : Server.RuntimeEnv where
  compressionAlgorithm := CompressionLib.algorithm config.compressionLib
  iformat := config.format
  bufferSize := config.bufferSize
  buffersInBufferpool := config.serverBuffpoolSize / config.bufferSize
  readParallelism := config.par .read
  deserParallelism := config.par .deser
  compressionParallelism := config.par .comp
  networkParallelism := config.par .send
  skipDeserializer := config.skipDeser
  schema := schema

/-- The settings of the client. -/
def clientEnv : Client.RuntimeEnv where
  iformat := config.format
  bufferSize := config.bufferSize
  buffersInBufferpool := config.clientBuffpoolSize / config.bufferSize
  rcvParallelism := config.par .rcv
  decompParallelism := config.par .decomp
  serParallelism := config.par .ser
  writeParallelism := config.par .write
  skipSerializer := config.skipSer
  schema := schema

/-- Neither constructor reports a buffer allocation error. -/
def Checked : Prop :=
  Server.PoolChecked (config.serverEnv schema) ∧ Client.PoolChecked (config.clientEnv schema)

instance : Decidable (config.Checked schema) :=
  inferInstanceAs (Decidable (¬ (_ ∨ _) ∧ ¬ (_ ∨ _)))

/-- Each constructor asks for two buffers a worker. -/
theorem checked_iff : config.Checked schema ↔
    2 * workers config.par serverStages ≤ config.serverBuffpoolSize / config.bufferSize ∧
      2 * workers config.par clientStages ≤ config.clientBuffpoolSize / config.bufferSize := by
  simp only [Checked, Server.PoolChecked, Client.PoolChecked, Server.RuntimeEnv.totalWorkers,
    Server.RuntimeEnv.availableBuffersForQueues, Client.RuntimeEnv.totalWorkers,
    Client.RuntimeEnv.availableBuffersForQueues, serverEnv, clientEnv, workers, serverStages,
    clientStages, List.map_cons, List.map_nil, List.sum_cons, List.sum_nil]
  omega

end RunConfig

/-! ### Room behind the overrides -/

/-- The workers are spread such that the pools have room for the overrides. -/
@[mk_iff] structure RoomFor (env : Env) (considerSkipSer : Bool) (par : Config) : Prop where
  deser : env.SkipsSer considerSkipSer → par .read ≤ 3 * par .deser + par .comp + par .send
  ser : env.SkipsSer considerSkipSer → par .decomp ≤ par .rcv + 3 * par .ser + par .write
  pandas : env.target = .pandas → par .write + 2 ≤ 3 * par .rcv + par .decomp + 3 * par .ser
  spark : env.target = .spark → env.src = .postgres → 2 * workers par serverStages ≤ 29

/-- **The overrides fit the pools** if the workers are spread well. -/
theorem checked_overrides_iff (env : Env) (considerSkipSer : Bool) (schema : List SchemaAttribute)
    {config : Config} (h_pos : ∀ k, 1 ≤ setHighestNet config k) :
    (overrides env considerSkipSer (formatConfig config)).Checked schema
      ↔ RoomFor env considerSkipSer (setHighestNet config) := by
  rw [RunConfig.checked_iff]
  unfold formatConfig
  generalize setHighestNet config = par at h_pos
  have h_read := h_pos .read
  have h_deser := h_pos .deser
  have h_comp := h_pos .comp
  have h_send := h_pos .send
  have h_rcv := h_pos .rcv
  have h_decomp := h_pos .decomp
  have h_ser := h_pos .ser
  have h_write := h_pos .write
  -- `skip_serializer` is set for the file targets only
  have h_skip : env.target ≠ .csv → env.target ≠ .parquet → ¬ env.SkipsSer considerSkipSer :=
    fun h_csv h_parquet h => h.2.elim (fun h => h_csv h.2) fun h => h_parquet h.2
  -- one case for each target, as each overrides the workers of other stages
  cases h_target : env.target with
  | csv | parquet =>
    by_cases h_skips : env.SkipsSer considerSkipSer
    · simp [roomFor_iff, overrides, RunConfig.setTarget, RunConfig.setSkip, RunConfig.ofBest,
        RunConfig.setPar, workers, serverStages, clientStages, Function.update, h_target, h_skips]
      omega
    · simp [roomFor_iff, overrides, RunConfig.setTarget, RunConfig.setSkip, RunConfig.ofBest,
        workers, serverStages, clientStages, h_target, h_skips]
      omega
  | postgres =>
    have h_skips := h_skip (by rw [h_target]; decide) (by rw [h_target]; decide)
    simp [roomFor_iff, overrides, RunConfig.setTarget, RunConfig.setSkip, RunConfig.ofBest,
      RunConfig.setPar, workers, serverStages, clientStages, Function.update, h_target, h_skips]
    omega
  | pandas =>
    have h_skips := h_skip (by rw [h_target]; decide) (by rw [h_target]; decide)
    simp [roomFor_iff, overrides, RunConfig.setTarget, RunConfig.setSkip, RunConfig.ofBest,
      RunConfig.setPar, workers, serverStages, clientStages, Function.update, h_target, h_skips]
    omega
  | spark =>
    have h_skips := h_skip (by rw [h_target]; decide) (by rw [h_target]; decide)
    by_cases h_src : env.src = .postgres
    · simp [roomFor_iff, overrides, RunConfig.setTarget, RunConfig.setSkip, RunConfig.ofBest,
        RunConfig.setPar, workers, serverStages, clientStages, Function.update, h_target, h_skips,
        h_src]
      omega
    · simp [roomFor_iff, overrides, RunConfig.setTarget, RunConfig.setSkip, RunConfig.ofBest,
        RunConfig.setPar, workers, serverStages, clientStages, Function.update, h_target, h_skips,
        h_src]
      omega

/-! ### What the optimizer can return -/

variable {params : Params} {table : ThroughputTable} {fuel : ℕ}

/-- A stage has one worker. -/
def oneEach : Config := fun _ => 1

/-- **The optimizer stays within the budget**, or has no worker to give. -/
theorem findBestConfig_cases {best : BestConfig}
    (h : findBestConfig params table.rate .nocomp fuel = some best) :
    ∃ config, best = formatConfig config ∧ (config = oneEach ∨
      WithinBudget params (setHighestNet config) ∧ 4 < params.maxTotalWorkersServer ∧
        4 < params.maxTotalWorkersClient) := by
  have h_result := h
  unfold findBestConfig at h_result
  obtain ⟨bound, -, h_result⟩ := Option.bind_eq_some_iff.mp h_result
  obtain ⟨slowest, -, h_result⟩ := Option.bind_eq_some_iff.mp h_result
  obtain ⟨st, h_run, rfl⟩ := Option.map_eq_some_iff.mp h_result
  refine ⟨st.bestConfig, rfl, ?_⟩
  obtain ⟨fuel, rfl⟩ : ∃ m, fuel = m + 1 := by
    cases fuel with
    | zero => cases h_run
    | succ fuel => exact ⟨fuel, rfl⟩
  rw [outerLoop] at h_run
  split at h_run
  · next h_go =>
    -- there is a slowest and a second stage
    obtain ⟨first, h_first, h_run⟩ := Option.bind_eq_some_iff.mp h_run
    obtain ⟨second, h_second, -⟩ := Option.bind_eq_some_iff.mp h_run
    obtain ⟨h_ne, h_counts, -⟩ := second_ne_first h_first h_second
    have h_first_counts : table.rate first.1 ≠ 0 :=
      mem_counting.mp (isSlowest_of_nthSlowest h_first).1.mem
    have h_server : 4 < params.maxTotalWorkersServer := h_go.2.2
    have h_client : 4 < params.maxTotalWorkersClient := h_go.2.1
    obtain ⟨best, h_best, h_within⟩ := findBestConfig_withinBudget params table.rate .nocomp
      (.inl rfl) table.nonneg ⟨first.1, second.1, h_ne, h_first_counts, h_counts⟩ table.net
      h_server.le h_client.le
    have h_same : some (formatConfig st.bestConfig) = some best := by
      rw [← findBestConfig_mono (le_max_left _ (params.maxTotalWorkersServer
        + params.maxTotalWorkersClient)) h]
      exact h_best _ (le_max_right _ _)
    have h_par : setHighestNet st.bestConfig = best.par :=
      congrArg BestConfig.par (Option.some.inj h_same)
    rw [h_par]
    exact .inr ⟨h_within, h_server, h_client⟩
  · cases h_run
    exact .inl rfl

/-! ### A slow stage -/

/-- All stages but one are as fast as they have to be, and all workers together do not make up for
that one. -/
def slowRate (slow : Stage) (bound : ℚ) (total : ℕ) : Stage → ℚ := fun k =>
  if k = slow then bound / (total + 1) else bound

/-- All workers of a side but one for every other stage. -/
def allTo (maxTotalWorkersServer maxTotalWorkersClient : ℕ) (slow : Stage) : Config := fun k =>
  if k = slow then
    (if slow ∈ serverStages then maxTotalWorkersServer else maxTotalWorkersClient) - 3
  else 1

/-- A stage is not faster than its workers one after the other. -/
theorem effectiveServiceRate_le_mul {rate : ℚ} (h_rate : 0 ≤ rate) {n : ℕ} (hn : 1 ≤ n) :
    effectiveServiceRate params rate n ≤ n * rate := by
  refine mul_le_mul_of_nonneg_right ?_ h_rate
  have h_one : (1 : ℚ) ≤ n := by exact_mod_cast hn
  have h_f0 : params.f0 * 1 ≤ params.f0 * n := mul_le_mul_of_nonneg_left h_one params.f0_nonneg
  linarith

/-- A stage has no more workers than there are. -/
theorem Book.count_le {throughputData : Stage → ℚ} {st : LoopState}
    (h : Book params throughputData st) (k : Stage) :
    st.bestConfig k ≤ params.maxTotalWorkersServer + params.maxTotalWorkersClient := by
  have h_server := h.server_le
  have h_client := h.client_le
  rw [h.server] at h_server
  rw [h.client] at h_client
  simp only [workers, serverStages, clientStages, List.map_cons, List.map_nil, List.sum_cons,
    List.sum_nil] at h_server h_client
  cases k <;> omega

/-- When a side has no worker left and the other stages have one each, the slow stage has all. -/
theorem Book.config_eq_allTo {throughputData : Stage → ℚ} {st : LoopState} {slow : Stage}
    (h : Book params throughputData st) (h_ones : ∀ j, j ≠ slow → st.bestConfig j = 1)
    (h_spare : ¬ st.Spare params) (h_server : 4 < params.maxTotalWorkersServer)
    (h_client : 4 < params.maxTotalWorkersClient) : st.bestConfig
      = allTo params.maxTotalWorkersServer params.maxTotalWorkersClient slow := by
  have h_server_le := h.server_le
  have h_client_le := h.client_le
  rw [LoopState.Spare, h.server, h.client] at h_spare
  rw [h.server] at h_server_le
  rw [h.client] at h_client_le
  funext k
  unfold allTo
  split
  · next h_eq =>
    subst h_eq
    simp only [workers, serverStages, clientStages, List.map_cons, List.map_nil, List.sum_cons,
      List.sum_nil] at h_server_le h_client_le h_spare ⊢
    -- no worker is left on the side of the slow stage
    cases k <;> simp [h_ones] at h_server_le h_client_le h_spare ⊢ <;> omega
  · next h_ne => exact h_ones k h_ne

section Slow

variable {slow : Stage} {bound : ℚ} {total : ℕ} (h_bound : 0 < bound)

include h_bound

/-- The workers do not make up for the slow stage. -/
theorem effectiveServiceRate_slow_lt {n : ℕ} (hn : 1 ≤ n) (h_le : n ≤ total) :
    effectiveServiceRate params (slowRate slow bound total slow) n < bound := by
  have h_total : (0 : ℚ) < total + 1 := by positivity
  have h_rate : 0 ≤ bound / (total + 1) := (div_pos h_bound h_total).le
  rw [slowRate, if_pos rfl]
  refine (effectiveServiceRate_le_mul h_rate hn).trans_lt ?_
  rw [mul_div_assoc', div_lt_iff₀ h_total, mul_comm]
  refine mul_lt_mul_of_pos_left ?_ h_bound
  exact_mod_cast Nat.lt_succ_of_le h_le

/-- All stages count. -/
theorem slowRate_pos (k : Stage) : 0 < slowRate slow bound total k := by
  unfold slowRate
  split
  · exact div_pos h_bound (by positivity)
  · exact h_bound

variable (slow) in
theorem slowRate_lt (h_total : 1 ≤ total) : slowRate slow bound total slow < bound := by
  rw [slowRate, if_pos rfl]
  refine div_lt_self h_bound (lt_add_of_pos_left 1 ?_)
  exact_mod_cast h_total

variable (slow) in
/-- The slow stage is the slowest one, and any other the second. -/
theorem nthSlowest_slowRate (h_total : 1 ≤ total) :
    nthSlowest (slowRate slow bound total) 0 = some (slow, slowRate slow bound total slow) ∧
      ∃ b, nthSlowest (slowRate slow bound total) 1 = some (b, bound) := by
  have h_lt := slowRate_lt slow h_bound h_total
  have h_counts : ∀ k, slowRate slow bound total k ≠ 0 := fun k => (slowRate_pos h_bound k).ne'
  obtain ⟨other, h_other⟩ : ∃ other : Stage, slow ≠ other := by
    cases slow with
    | send => exact ⟨.rcv, by decide⟩
    | _ => exact ⟨.send, by decide⟩
  obtain ⟨a, b, h_first, h_second, h_slowest, -⟩ :=
    exists_slowest_second h_other (h_counts slow) (h_counts other)
  -- every other stage is as fast as the bound
  have h_a : a = slow := by
    by_contra h_ne
    have h_le := h_slowest.le slow (mem_counting.mpr (h_counts slow))
    rw [slowRate, if_neg h_ne] at h_le
    exact absurd h_lt (not_lt.mpr h_le)
  subst h_a
  have h_ne : a ≠ b := (second_ne_first h_first h_second).1
  refine ⟨h_first, b, h_second.trans ?_⟩
  rw [slowRate, if_neg h_ne.symm]

/-- **The slow stage gets one worker after the other**, until a side has none left. -/
theorem innerLoop_slow {st : LoopState} {thr second : ℚ}
    (h_total : params.maxTotalWorkersServer + params.maxTotalWorkersClient ≤ total)
    (h_thr : thr < bound) (h_second : bound ≤ second)
    (h_book : Book params (slowRate slow bound total) st)
    (h_ones : ∀ j, j ≠ slow → st.bestConfig j = 1) :
    ∃ st', (∀ fuel, workersLeft params st < fuel →
        innerLoop params (slowRate slow bound total) bound slow thr second fuel st = some st') ∧
      Book params (slowRate slow bound total) st' ∧ (∀ j, j ≠ slow → st'.bestConfig j = 1) ∧
      ¬ st'.Spare params := by
  induction h_left : workersLeft params st using Nat.strong_induction_on generalizing st with
  | _ n ih =>
    subst h_left
    by_cases h_spare : st.Spare params
    · have h_book' := h_book.addWorker h_spare slow
      -- with all workers it still is slower than the bound
      have h_slower : (st.addWorker params (slowRate slow bound total) slow).calcThroughputs slow
          < bound := by
        rw [h_book'.rate]
        exact effectiveServiceRate_slow_lt h_bound (h_book'.pos slow)
          ((h_book'.count_le slow).trans h_total)
      have h_ones' : ∀ j, j ≠ slow →
          (st.addWorker params (slowRate slow bound total) slow).bestConfig j = 1 := by
        intro j hj
        rw [config_addWorker_of_ne hj]
        exact h_ones j hj
      -- one worker less is left
      have h_less := workersLeft_addWorker (slowRate slow bound total) slow h_spare
      obtain ⟨st', h_run, h_rest⟩ := ih _ h_less h_book' h_ones' rfl
      refine ⟨st', fun fuel h_fuel => ?_, h_rest⟩
      obtain ⟨fuel, rfl⟩ := Nat.exists_eq_succ_of_ne_zero (Nat.ne_zero_of_lt h_fuel)
      refine ((if_pos ⟨h_spare, h_thr⟩).trans (if_neg ?_)).trans (h_run fuel (by omega))
      exact not_or.mpr ⟨not_le.mpr (h_slower.trans_le h_second), not_le.mpr h_slower⟩
    · -- no worker is left
      exact ⟨st, fun fuel h_fuel => innerLoop_stop (fun h => h_spare h.1) (by omega), h_book,
        h_ones, h_spare⟩

omit h_bound in
/-- Both ends of the network are as fast. -/
theorem slowRate_net (h_send : slow ≠ .send) (h_rcv : slow ≠ .rcv) :
    slowRate slow bound total .send = slowRate slow bound total .rcv := by
  rw [slowRate, if_neg h_send.symm, slowRate, if_neg h_rcv.symm]

variable (slow total) in
/-- A table with a slow stage. -/
def slowTable (h_send : slow ≠ .send) (h_rcv : slow ≠ .rcv) : ThroughputTable where
  rate := slowRate slow bound total
  nonneg k := (slowRate_pos h_bound k).le
  net := slowRate_net h_send h_rcv

end Slow

/-- **A stage that is much slower than the others gets all workers.** -/
theorem findBestConfig_slowRate (slow : Stage) (h_bound : 0 < params.minUpperBoundPair.2)
    (h_server : 4 < params.maxTotalWorkersServer) (h_client : 4 < params.maxTotalWorkersClient) :
    ∃ fuel, findBestConfig params (slowRate slow params.minUpperBoundPair.2
        (params.maxTotalWorkersServer + params.maxTotalWorkersClient)) .nocomp fuel
      = some (formatConfig
          (allTo params.maxTotalWorkersServer params.maxTotalWorkersClient slow)) := by
  generalize h_eq : params.minUpperBoundPair.2 = bound at h_bound ⊢
  generalize h_total : params.maxTotalWorkersServer + params.maxTotalWorkersClient = total
  obtain ⟨h_first, b, h_second⟩ :=
    nthSlowest_slowRate slow h_bound (by omega : 1 ≤ total)
  have h_lt : slowRate slow bound total slow < bound := slowRate_lt slow h_bound (by omega)
  obtain ⟨st, h_inner, h_book, h_ones, h_spare⟩ :=
    innerLoop_slow h_bound h_total.le h_lt le_rfl (.start h_server.le h_client.le)
      (fun _ _ => rfl : ∀ j, j ≠ slow → (LoopState.start _).bestConfig j = 1)
  have h_pair : lowestUpperBoundThr params .nocomp = some bound := by
    simp [lowestUpperBoundThr, h_eq]
  obtain ⟨fuel, h_fuel⟩ : ∃ m, workersLeft params
      (.start (slowRate slow bound total)) < m + 1 := ⟨_, Nat.lt_succ_self _⟩
  refine ⟨fuel + 1 + 1, ?_⟩
  have h_run : outerLoop params (slowRate slow bound total) bound (fuel + 1 + 1)
      (slowRate slow bound total slow) (.start (slowRate slow bound total)) = some st := by
    -- the first round spends every worker on `slow`, and there is no second
    refine (if_pos ⟨h_lt, h_client, h_server⟩).trans ?_
    rw [show (LoopState.start (slowRate slow bound total)).calcThroughputs
      = slowRate slow bound total from rfl, h_first, h_second, Option.bind_some, Option.bind_some,
      h_inner _ h_fuel, Option.bind_some]
    exact if_neg fun h => h_spare h.2
  rw [findBestConfig, h_pair, Option.bind_some, h_first, Option.bind_some, h_run]
  exact congrArg (fun config => some (formatConfig config))
    (h_book.config_eq_allTo h_ones h_spare h_server h_client)

/-! ### Room for every table -/

/-- **Whatever the throughputs are**, the constructors do not complain. -/
def PoolsFit (env : Env) (considerSkipSer : Bool) : Prop :=
  ∀ (ratio : CompressionLib → ℚ) (table : ThroughputTable) (fuel : ℕ) (config : RunConfig),
    optimize env ratio considerSkipSer table.rate fuel = some config →
      ∀ schema, config.Checked schema

/-- One side has so few workers to give that no stage can get too many. -/
structure FewWorkers (env : Env) (considerSkipSer : Bool) : Prop where
  deser : env.SkipsSer considerSkipSer →
    env.maxTotalWorkersServer ≤ 8 ∨ env.maxTotalWorkersClient ≤ 4
  ser : env.SkipsSer considerSkipSer →
    env.maxTotalWorkersClient ≤ 8 ∨ env.maxTotalWorkersServer ≤ 4
  pandas : env.target = .pandas →
    env.maxTotalWorkersClient ≤ 8 ∨ env.maxTotalWorkersServer ≤ 4
  spark : env.target = .spark → env.src = .postgres →
    env.maxTotalWorkersServer ≤ 14 ∨ env.maxTotalWorkersClient ≤ 4

variable {env : Env} {considerSkipSer : Bool}

/-- With one worker for each stage, or few on one side, there is room. -/
theorem FewWorkers.roomFor (h_few : FewWorkers env considerSkipSer) {config : Config}
    (h_config : config = oneEach ∨ ∃ params : Params,
      params.maxTotalWorkersServer = env.maxTotalWorkersServer ∧
        params.maxTotalWorkersClient = env.maxTotalWorkersClient ∧
        WithinBudget params (setHighestNet config) ∧ 4 < params.maxTotalWorkersServer ∧
        4 < params.maxTotalWorkersClient) :
    RoomFor env considerSkipSer (setHighestNet config) := by
  rcases h_config with rfl | ⟨params, h_S, h_C, h_within, h_server, h_client⟩
  · -- the configuration without a round: one worker each
    constructor <;> intros <;> decide
  · rw [h_S] at h_server
    rw [h_C] at h_client
    have h_pos := h_within.pos
    have h_server_le := h_within.server
    have h_client_le := h_within.client
    rw [h_S] at h_server_le
    rw [h_C] at h_client_le
    -- the budgets bound the sums, and every stage has a worker
    generalize setHighestNet config = par at h_pos h_server_le h_client_le
    have h_deser := h_pos .deser
    have h_comp := h_pos .comp
    have h_send := h_pos .send
    have h_rcv := h_pos .rcv
    have h_decomp := h_pos .decomp
    have h_ser := h_pos .ser
    have h_write := h_pos .write
    constructor
    · intro h_skips
      have h_side := h_few.deser h_skips
      omega
    · intro h_skips
      have h_side := h_few.ser h_skips
      omega
    · intro h_target
      have h_side := h_few.pandas h_target
      omega
    · intro h_target h_src
      have h_side := h_few.spark h_target h_src
      simp only [workers, serverStages, List.map_cons, List.map_nil, List.sum_cons, List.sum_nil]
      omega

/-- A configuration of the optimizer has a worker for every stage. -/
theorem setHighestNet_pos {config : Config} (h : ∀ k, 1 ≤ config k) (k : Stage) :
    1 ≤ setHighestNet config k := by
  have h_send := h .send
  cases k <;> first
    | exact h _
    | exact le_min (le_max_of_le_left h_send) one_le_two

/-- The upper bounds are positive. -/
theorem Env.minUpperBound_pos {ratio : CompressionLib → ℚ}
    (h : env.params ratio = some params) : 0 < params.minUpperBoundPair.2 := by
  obtain ⟨bounds, h_bounds, rfl⟩ := Option.map_eq_some_iff.mp h
  have h_pos : 0 < bounds.1 ∧ 0 < bounds.2 := by
    unfold upperBounds at h_bounds
    split at h_bounds <;> cases h_bounds <;> norm_num
  have h_net : (0 : ℚ) < env.net := by
    unfold Env.net
    split
    · norm_num
    · exact_mod_cast Nat.pos_of_ne_zero ‹_›
  have h_all : ∀ item ∈ [("read", bounds.1), ("write", bounds.2), ("send", (env.net : ℚ)),
      ("rcv", (env.net : ℚ))], 0 < item.2 := by
    simp [h_pos, h_net]
  exact h_all _ (Params.minUpperBoundPair_mem _)

/-- If all workers of a side can go to one stage, there has to be room for that as well. -/
theorem PoolsFit.roomFor_allTo (h_fit : PoolsFit env considerSkipSer)
    (h_defined : (upperBounds env.target env.src).isSome)
    (h_server : 4 < env.maxTotalWorkersServer) (h_client : 4 < env.maxTotalWorkersClient)
    {slow : Stage} (h_send : slow ≠ .send) (h_rcv : slow ≠ .rcv) :
    RoomFor env considerSkipSer
      (setHighestNet (allTo env.maxTotalWorkersServer env.maxTotalWorkersClient slow)) := by
  obtain ⟨bounds, h_bounds⟩ := Option.isSome_iff_exists.mp h_defined
  obtain ⟨params, h_params⟩ : ∃ params, env.params (fun _ => 1) = some params :=
    ⟨_, congrArg (Option.map _) h_bounds⟩
  have h_bound := Env.minUpperBound_pos h_params
  obtain ⟨h_S, h_C⟩ : params.maxTotalWorkersServer = env.maxTotalWorkersServer ∧
      params.maxTotalWorkersClient = env.maxTotalWorkersClient := by
    obtain ⟨_, -, rfl⟩ := Option.map_eq_some_iff.mp h_params
    exact ⟨rfl, rfl⟩
  rw [← h_S] at h_server
  rw [← h_C] at h_client
  -- the table that makes `slow` the slowest stage gives it every spare worker
  obtain ⟨fuel, h_fuel⟩ := findBestConfig_slowRate slow h_bound h_server h_client
  have h_run : optimize env (fun _ => 1) considerSkipSer (slowTable slow
      (params.maxTotalWorkersServer + params.maxTotalWorkersClient) h_bound h_send h_rcv).rate fuel
      = some (overrides env considerSkipSer (formatConfig
          (allTo params.maxTotalWorkersServer params.maxTotalWorkersClient slow))) := by
    rw [optimize, h_params, Option.bind_some]
    exact congrArg (Option.map _) h_fuel
  -- the overrides only need that every stage has a worker
  have h_pos : ∀ k, 1 ≤ setHighestNet
      (allTo params.maxTotalWorkersServer params.maxTotalWorkersClient slow) k := by
    refine setHighestNet_pos fun k => ?_
    unfold allTo
    split
    · split <;> omega
    · exact le_rfl
  rw [← h_S, ← h_C]
  exact (checked_overrides_iff env considerSkipSer [] h_pos).mp (h_fit _ _ _ _ h_run [])

/-- **The pools fit every table exactly where one side has few workers to give**, for every
environment with upper bounds. -/
theorem poolsFit_iff (env : Env) (considerSkipSer : Bool)
    (h_defined : (upperBounds env.target env.src).isSome) :
    PoolsFit env considerSkipSer ↔ FewWorkers env considerSkipSer := by
  constructor
  · -- one table for each of the four demands, by contradiction
    intro h_fit
    constructor
    · intro h_skips
      by_contra h_many
      have h_room := (h_fit.roomFor_allTo h_defined (by omega) (by omega)
        (by decide : Stage.read ≠ .send) (by decide)).deser h_skips
      simp [setHighestNet, allTo, Function.update, serverStages] at h_room
      omega
    · intro h_skips
      by_contra h_many
      have h_room := (h_fit.roomFor_allTo h_defined (by omega) (by omega)
        (by decide : Stage.decomp ≠ .send) (by decide)).ser h_skips
      simp [setHighestNet, allTo, Function.update, serverStages] at h_room
      omega
    · intro h_target
      by_contra h_many
      have h_room := (h_fit.roomFor_allTo h_defined (by omega) (by omega)
        (by decide : Stage.write ≠ .send) (by decide)).pandas h_target
      simp [setHighestNet, allTo, Function.update, serverStages] at h_room
      omega
    · intro h_target h_src
      by_contra h_many
      have h_room := (h_fit.roomFor_allTo h_defined (by omega) (by omega)
        (by decide : Stage.read ≠ .send) (by decide)).spark h_target h_src
      simp [setHighestNet, allTo, Function.update, serverStages, workers] at h_room
      omega
  · -- whatever the table, the configuration stays within the workers
    intro h_few ratio table fuel config h_config schema
    obtain ⟨params, h_params, h_config⟩ := Option.bind_eq_some_iff.mp h_config
    obtain ⟨best, h_best, rfl⟩ := Option.map_eq_some_iff.mp h_config
    obtain ⟨bounds, h_bounds, rfl⟩ := Option.map_eq_some_iff.mp h_params
    obtain ⟨config, rfl, h_cases⟩ := findBestConfig_cases h_best
    have h_room := h_few.roomFor (h_cases.imp_right fun h => ⟨_, rfl, rfl, h⟩)
    refine (checked_overrides_iff env considerSkipSer schema ?_).mpr h_room
    rcases h_cases with rfl | h_within
    · exact setHighestNet_pos fun _ => le_rfl
    · exact h_within.1.pos

/-- A copy of files on machines with some processors. -/
def copyEnv (cpu : ℚ) : Env where
  serverCpu := cpu
  clientCpu := cpu
  network := 0
  src := .csv
  srcFormat := 1
  target := .csv
  targetFormat := 1

theorem maxTotalWorkersServer_copyEnv_seven : (copyEnv 7).maxTotalWorkersServer = 8 := by
  decide +kernel

theorem poolsFit_copyEnv_seven : PoolsFit (copyEnv 7) true :=
  (poolsFit_iff (copyEnv 7) true (by decide)).mpr
    { deser := fun _ => .inl maxTotalWorkersServer_copyEnv_seven.le
      ser := fun _ => .inl maxTotalWorkersServer_copyEnv_seven.le
      pandas := fun h => by cases h
      spark := fun h => by cases h }

/-- The rates of a reader that is slower than the other stages. -/
def slowReader : ThroughputTable where
  rate k := if k = .read then 100 else 3000
  nonneg k := by cases k <;> decide
  net := rfl

/-- **With eight processors the pools are too small for a slow reader**: the nine workers of the
server get 27 buffers, and with six deserializers in the place of one there are 14 workers. -/
theorem not_poolsFit_copyEnv_eight : ¬ PoolsFit (copyEnv 8) true := by
  intro h
  have h_some : (optimize (copyEnv 8) (fun _ => 1) true slowReader.rate 24).isSome := by
    decide +kernel
  have h_small : ∀ config ∈ optimize (copyEnv 8) (fun _ => 1) true slowReader.rate 24,
      ¬ config.Checked [] := by
    decide +kernel
  obtain ⟨config, h_config⟩ := Option.isSome_iff_exists.mp h_some
  exact h_small config h_config (h (fun _ => 1) slowReader 24 config h_config [])

end Xdbc.Optimizer.Heuristics
