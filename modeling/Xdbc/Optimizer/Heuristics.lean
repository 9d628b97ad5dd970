import Xdbc.Optimizer.Rates

/-!
# The heuristic optimizer

`find_best_config` gives a worker to the slowest stage as long as both sides have one left and no
upper bound is reached; afterwards both network stages get the same number of workers, at most two.

Every round of the inner loop uses up a worker, so the loops end. That the last step stays within
the budget is due to the order of the keys: `send` and `rcv` have the same rate and `send` comes
first, so `send` gets a worker first and `rcv` is then the slowest stage itself (`Net`). If the loops
end just there, it is because the server has no worker left; the client has one for `rcv`.
-/

namespace Xdbc.Optimizer.Heuristics

/-! ### The loops -/

/-- The variables of the loops. -/
structure LoopState where
  bestConfig : Config
  calcThroughputs : Stage → ℚ
  workersServer : ℕ
  workersClient : ℕ

/-- Both sides have a worker left. -/
def LoopState.Spare (params : Params) (st : LoopState) : Prop :=
  st.workersClient < params.maxTotalWorkersClient ∧ st.workersServer < params.maxTotalWorkersServer

instance (params : Params) (st : LoopState) : Decidable (st.Spare params) := instDecidableAnd

/-- The stage `k` gets a worker. -/
def LoopState.addWorker (params : Params) (throughputData : Stage → ℚ) (st : LoopState)
    (k : Stage) : LoopState where
  bestConfig := Function.update st.bestConfig k (st.bestConfig k + 1)
  calcThroughputs := Function.update st.calcThroughputs k
    (effectiveServiceRate params (throughputData k) (st.bestConfig k + 1))
  workersServer := if k ∈ serverStages then st.workersServer + 1 else st.workersServer
  workersClient := if k ∈ clientStages then st.workersClient + 1 else st.workersClient

section Loops

variable (params : Params) (throughputData : Stage → ℚ) (lowestUpperBoundThr : ℚ)

/-- The inner `while`; without fuel there is no result. -/
def innerLoop (slowestComponent : Stage) (slowestThr secondSlowestThr : ℚ) :
    ℕ → LoopState → Option LoopState
  | 0, _ => none
  | fuel + 1, st =>
    if st.Spare params ∧ slowestThr < lowestUpperBoundThr then
      let st' := st.addWorker params throughputData slowestComponent
      let newThroughput := st'.calcThroughputs slowestComponent
      if secondSlowestThr ≤ newThroughput ∨ lowestUpperBoundThr ≤ newThroughput then some st'
      else innerLoop slowestComponent slowestThr secondSlowestThr fuel st'
    else some st

/-- The outer `while`. `None` has no item, so without a slowest or a second stage there is no
result. -/
def outerLoop : ℕ → ℚ → LoopState → Option LoopState
  | 0, _, _ => none
  | fuel + 1, slowestThr, st =>
    if slowestThr < lowestUpperBoundThr ∧ st.Spare params then
      (nthSlowest st.calcThroughputs 0).bind fun slowest =>
      (nthSlowest st.calcThroughputs 1).bind fun second =>
      (innerLoop params throughputData lowestUpperBoundThr slowest.1 slowest.2 second.2 fuel
        st).bind fun st' =>
      outerLoop fuel slowest.2 st'
    else some st

end Loops

/-- The variables in front of the loops. -/
def LoopState.start (throughputData : Stage → ℚ) : LoopState where
  bestConfig := fun _ => 1
  calcThroughputs := throughputData
  workersServer := 4
  workersClient := 4

/-- `lowest_upper_bound_thr`. -/
def lowestUpperBoundThr (params : Params) (compression : CompressionLib) : Option ℚ :=
  let pair := params.minUpperBoundPair
  if compression ≠ .nocomp ∧ (pair.1 = "send" ∨ pair.1 = "receive") then
    if params.ratio compression = 0 then none else some (pair.2 / params.ratio compression)
  else some pair.2

/-- Both network stages get the larger number of workers, up to two. -/
def setHighestNet (config : Config) : Config :=
  let highestNet := min (max (config .send) (config .rcv)) 2
  Function.update (Function.update config .send highestNet) .rcv highestNet

/-- The configuration that is returned. -/
structure BestConfig where
  par : Config
  bufferSize : ℕ
  serverBuffpoolSize : ℕ
  clientBuffpoolSize : ℕ

/-- The last lines of `find_best_config`, with `format_config`. -/
def formatConfig (config : Config) : BestConfig where
  par := setHighestNet config
  bufferSize := 1024
  serverBuffpoolSize := 1024 * workers (setHighestNet config) serverStages * 3
  clientBuffpoolSize := 1024 * workers (setHighestNet config) clientStages * 3

/-- `find_best_config` without `start_config`. -/
def findBestConfig (params : Params) (throughputData : Stage → ℚ) (compression : CompressionLib)
    (fuel : ℕ) : Option BestConfig :=
  (lowestUpperBoundThr params compression).bind fun bound =>
  (nthSlowest throughputData 0).bind fun slowest =>
  (outerLoop params throughputData bound fuel slowest.2 (.start throughputData)).map fun st =>
    formatConfig st.bestConfig

/-! ### Fuel -/

variable {params : Params} {throughputData : Stage → ℚ} {bound : ℚ} {st : LoopState} {k : Stage}

/-- With more fuel, the inner loop has the same result. -/
theorem innerLoop_mono {thr second : ℚ} {fuel fuel' : ℕ} {st' : LoopState} (h_le : fuel ≤ fuel')
    (h : innerLoop params throughputData bound k thr second fuel st = some st') :
    innerLoop params throughputData bound k thr second fuel' st = some st' := by
  induction fuel generalizing fuel' st with
  | zero => cases h
  | succ fuel ih =>
    obtain ⟨fuel', rfl⟩ := Nat.exists_eq_succ_of_ne_zero (by omega : fuel' ≠ 0)
    rw [innerLoop] at h ⊢
    by_cases h_go : st.Spare params ∧ thr < bound
    · rw [if_pos h_go] at h ⊢
      dsimp only at h ⊢
      split at h
      · next h_break => rwa [if_pos h_break]
      · next h_break =>
        rw [if_neg h_break]
        exact ih (by omega) h
    · rwa [if_neg h_go] at h ⊢

/-- With more fuel, the outer loop has the same result. -/
theorem outerLoop_mono {thr : ℚ} {fuel fuel' : ℕ} {st' : LoopState} (h_le : fuel ≤ fuel')
    (h : outerLoop params throughputData bound fuel thr st = some st') :
    outerLoop params throughputData bound fuel' thr st = some st' := by
  induction fuel generalizing fuel' thr st with
  | zero => cases h
  | succ fuel ih =>
    obtain ⟨fuel', rfl⟩ := Nat.exists_eq_succ_of_ne_zero (by omega : fuel' ≠ 0)
    rw [outerLoop] at h ⊢
    by_cases h_go : thr < bound ∧ st.Spare params
    · rw [if_pos h_go] at h ⊢
      obtain ⟨slowest, h_slowest, h⟩ := Option.bind_eq_some_iff.mp h
      obtain ⟨second, h_second, h⟩ := Option.bind_eq_some_iff.mp h
      obtain ⟨st₁, h_inner, h⟩ := Option.bind_eq_some_iff.mp h
      rw [h_slowest, h_second, Option.bind_some, Option.bind_some,
        innerLoop_mono (by omega) h_inner, Option.bind_some]
      exact ih (by omega) h
    · rwa [if_neg h_go] at h ⊢

/-- The result of the optimizer does not depend on the fuel. -/
theorem findBestConfig_mono {compression : CompressionLib} {fuel fuel' : ℕ} {best : BestConfig}
    (h_le : fuel ≤ fuel')
    (h : findBestConfig params throughputData compression fuel = some best) :
    findBestConfig params throughputData compression fuel' = some best := by
  unfold findBestConfig at h ⊢
  obtain ⟨bound, h_bound, h⟩ := Option.bind_eq_some_iff.mp h
  obtain ⟨slowest, h_slowest, h⟩ := Option.bind_eq_some_iff.mp h
  obtain ⟨st, h_run, h⟩ := Option.map_eq_some_iff.mp h
  rw [h_bound, h_slowest, Option.bind_some, Option.bind_some, outerLoop_mono h_le h_run]
  exact congrArg some h

/-! ### What a worker changes -/

theorem workers_update_server (config : Config) (k : Stage) (n : ℕ) :
    workers (Function.update config k (config k + n)) serverStages
      = workers config serverStages + if k ∈ serverStages then n else 0 := by
  cases k <;> simp [workers, serverStages, Function.update] <;> omega

theorem workers_update_client (config : Config) (k : Stage) (n : ℕ) :
    workers (Function.update config k (config k + n)) clientStages
      = workers config clientStages + if k ∈ clientStages then n else 0 := by
  cases k <;> simp [workers, clientStages, Function.update] <;> omega

/-- A stage is on one side. -/
theorem mem_server_or_client (k : Stage) :
    (k ∈ serverStages ∧ k ∉ clientStages) ∨ (k ∉ serverStages ∧ k ∈ clientStages) := by
  cases k <;> decide

/-- The workers that are left. -/
def workersLeft (params : Params) (st : LoopState) : ℕ :=
  params.maxTotalWorkersServer - st.workersServer
    + (params.maxTotalWorkersClient - st.workersClient)

variable (throughputData k) in
/-- **Every round uses up a worker.** -/
theorem workersLeft_addWorker (h_spare : st.Spare params) :
    workersLeft params (st.addWorker params throughputData k) < workersLeft params st := by
  obtain ⟨h_client, h_server⟩ := h_spare
  unfold workersLeft LoopState.addWorker
  rcases mem_server_or_client k with ⟨h_in, h_out⟩ | ⟨h_out, h_in⟩
  · simp only [if_pos h_in, if_neg h_out]
    omega
  · simp only [if_pos h_in, if_neg h_out]
    omega

/-! ### The invariant -/

/-- The variables fit together and stay within the budget. -/
structure Book (params : Params) (throughputData : Stage → ℚ) (st : LoopState) : Prop where
  pos : ∀ k, 1 ≤ st.bestConfig k
  rate : ∀ k, st.calcThroughputs k
    = effectiveServiceRate params (throughputData k) (st.bestConfig k)
  server : st.workersServer = workers st.bestConfig serverStages
  client : st.workersClient = workers st.bestConfig clientStages
  server_le : st.workersServer ≤ params.maxTotalWorkersServer
  client_le : st.workersClient ≤ params.maxTotalWorkersClient

/-- The network stages have the same number of workers, or `send` has one more; then `rcv` is the
slowest stage and the client has a worker for it. -/
def Net (params : Params) (st : LoopState) : Prop :=
  st.bestConfig .send = st.bestConfig .rcv ∨
    (st.bestConfig .send = st.bestConfig .rcv + 1 ∧
      st.workersClient < params.maxTotalWorkersClient ∧ IsSlowest st.calcThroughputs .rcv)

theorem Book.start (h_server : 4 ≤ params.maxTotalWorkersServer)
    (h_client : 4 ≤ params.maxTotalWorkersClient) :
    Book params throughputData (.start throughputData) where
  pos _ := le_rfl
  rate _ := (effectiveServiceRate_one _ _).symm
  server := rfl
  client := rfl
  server_le := h_server
  client_le := h_client

theorem Book.addWorker (h : Book params throughputData st) (h_spare : st.Spare params)
    (k : Stage) : Book params throughputData (st.addWorker params throughputData k) where
  pos j := by
    unfold LoopState.addWorker
    by_cases h_eq : j = k
    · subst h_eq
      simp
    · simpa [h_eq] using h.pos j
  rate j := by
    unfold LoopState.addWorker
    by_cases h_eq : j = k
    · subst h_eq
      simp
    · simpa [h_eq] using h.rate j
  server := by
    change (if _ then _ else _) = workers (Function.update _ _ _) _
    rw [workers_update_server, ← h.server]
    split <;> rfl
  client := by
    change (if _ then _ else _) = workers (Function.update _ _ _) _
    rw [workers_update_client, ← h.client]
    split <;> rfl
  server_le := by
    change (if _ then _ else _) ≤ _
    split
    · exact h_spare.2
    · exact h_spare.2.le
  client_le := by
    change (if _ then _ else _) ≤ _
    split
    · exact h_spare.1
    · exact h_spare.1.le

/-- A worker changes the rate of its stage only. -/
theorem calc_addWorker_of_ne {j : Stage} (h_ne : j ≠ k) :
    (st.addWorker params throughputData k).calcThroughputs j = st.calcThroughputs j :=
  Function.update_of_ne h_ne _ _

theorem calc_addWorker_self : (st.addWorker params throughputData k).calcThroughputs k
    = effectiveServiceRate params (throughputData k) (st.bestConfig k + 1) :=
  Function.update_self _ _ _

theorem config_addWorker_of_ne {j : Stage} (h_ne : j ≠ k) :
    (st.addWorker params throughputData k).bestConfig j = st.bestConfig j :=
  Function.update_of_ne h_ne _ _

theorem config_addWorker_self :
    (st.addWorker params throughputData k).bestConfig k = st.bestConfig k + 1 :=
  Function.update_self _ _ _

section Rates

variable (h_nonneg : ∀ k, 0 ≤ throughputData k)

include h_nonneg

/-- A stage counts if it has a rate. -/
theorem Book.calc_ne_zero_iff (h : Book params throughputData st) :
    st.calcThroughputs k ≠ 0 ↔ throughputData k ≠ 0 := by
  rw [h.rate k]
  constructor
  · intro h_ne h_zero
    rw [h_zero] at h_ne
    exact h_ne (mul_zero _)
  · intro h_ne
    exact (effectiveServiceRate_pos ((h_nonneg k).lt_of_ne' h_ne) (h.pos k)).ne'

/-- The slowest stage gets faster. -/
theorem Book.calc_lt_addWorker (h : Book params throughputData st)
    (hk : st.calcThroughputs k ≠ 0) :
    st.calcThroughputs k < (st.addWorker params throughputData k).calcThroughputs k := by
  have h_pos : 0 < throughputData k :=
    (h_nonneg k).lt_of_ne' ((h.calc_ne_zero_iff h_nonneg).mp hk)
  rw [calc_addWorker_self, h.rate k]
  exact effectiveServiceRate_lt h_pos (Nat.lt_succ_self _)

end Rates

/-! ### The inner loop -/

/-- Without a worker, or at the bound, the inner loop does nothing. -/
theorem innerLoop_stop {thr second : ℚ} (h_stop : ¬ (st.Spare params ∧ thr < bound)) {fuel : ℕ}
    (h_fuel : 0 < fuel) : innerLoop params throughputData bound k thr second fuel st = some st := by
  obtain ⟨fuel, rfl⟩ := Nat.exists_eq_succ_of_ne_zero h_fuel.ne'
  exact if_neg h_stop

/-- The inner loop ends with the round in which its stage gets as fast as the second one. -/
theorem innerLoop_break {thr second : ℚ} (h_go : st.Spare params ∧ thr < bound)
    (h_second : second ≤ (st.addWorker params throughputData k).calcThroughputs k) {fuel : ℕ}
    (h_fuel : 0 < fuel) : innerLoop params throughputData bound k thr second fuel st
      = some (st.addWorker params throughputData k) := by
  obtain ⟨fuel, rfl⟩ := Nat.exists_eq_succ_of_ne_zero h_fuel.ne'
  exact (if_pos h_go).trans (if_pos (.inl h_second))

variable (bound) in
/-- **A stage that is not on the network** gets its workers, and the network stages keep theirs. -/
theorem innerLoop_other (thr second : ℚ) (h_send : k ≠ .send) (h_rcv : k ≠ .rcv)
    (h_book : Book params throughputData st)
    (h_net : st.bestConfig .send = st.bestConfig .rcv) :
    ∃ st', (∀ fuel, workersLeft params st < fuel →
        innerLoop params throughputData bound k thr second fuel st = some st') ∧
      Book params throughputData st' ∧ st'.bestConfig .send = st'.bestConfig .rcv ∧
      (workersLeft params st' < workersLeft params st ∨
        st' = st ∧ ¬ (st.Spare params ∧ thr < bound)) := by
  induction h_left : workersLeft params st using Nat.strong_induction_on generalizing st with
  | _ n ih =>
    subst h_left
    -- a worker is added, or the loop ends
    by_cases h_go : st.Spare params ∧ thr < bound
    · have h_less := workersLeft_addWorker throughputData k h_go.1
      have h_book' := h_book.addWorker h_go.1 k
      have h_net' : (st.addWorker params throughputData k).bestConfig .send
          = (st.addWorker params throughputData k).bestConfig .rcv := by
        rw [config_addWorker_of_ne h_send.symm, config_addWorker_of_ne h_rcv.symm, h_net]
      -- the loop breaks after this worker, or goes on with it
      by_cases h_break : second ≤ (st.addWorker params throughputData k).calcThroughputs k ∨
          bound ≤ (st.addWorker params throughputData k).calcThroughputs k
      · refine ⟨_, fun fuel h_fuel => ?_, h_book', h_net', .inl h_less⟩
        obtain ⟨fuel, rfl⟩ := Nat.exists_eq_succ_of_ne_zero (Nat.ne_zero_of_lt h_fuel)
        exact (if_pos h_go).trans (if_pos h_break)
      · -- one worker less is left
        obtain ⟨st', h_run, h_rest, h_eq, h_prog⟩ := ih _ h_less h_book' h_net' rfl
        refine ⟨st', fun fuel h_fuel => ?_, h_rest, h_eq, .inl ?_⟩
        · obtain ⟨fuel, rfl⟩ := Nat.exists_eq_succ_of_ne_zero (Nat.ne_zero_of_lt h_fuel)
          exact ((if_pos h_go).trans (if_neg h_break)).trans (h_run fuel (by omega))
        · rcases h_prog with h_lt | ⟨rfl, -⟩
          · exact h_lt.trans h_less
          · exact h_less
    · exact ⟨st, fun fuel h_fuel => innerLoop_stop h_go (by omega), h_book, h_net,
        .inr ⟨rfl, h_go⟩⟩

section Network

variable (h_nonneg : ∀ k, 0 ≤ throughputData k)
  (h_rates : throughputData .send = throughputData .rcv)

include h_nonneg h_rates

/-- **`send` gets one worker**, after which `rcv` is the slowest stage. -/
theorem net_addWorker_send (h_book : Book params throughputData st)
    (h_spare : st.Spare params) (h_net : st.bestConfig .send = st.bestConfig .rcv)
    (h_slowest : IsSlowest st.calcThroughputs .send) :
    Net params (st.addWorker params throughputData .send) := by
  have h_same : st.calcThroughputs .send = st.calcThroughputs .rcv := by
    rw [h_book.rate, h_book.rate, h_rates, h_net]
  have h_faster := h_book.calc_lt_addWorker h_nonneg (mem_counting.mp h_slowest.mem)
  have h_rcv : (st.addWorker params throughputData .send).calcThroughputs .rcv
      = st.calcThroughputs .send := by
    rw [calc_addWorker_of_ne (by decide), h_same]
  refine .inr ⟨?_, h_spare.1, ?_, fun j hj => ?_, fun j hj h_lt => ?_⟩
  · rw [config_addWorker_self, config_addWorker_of_ne (by decide), h_net]
  · rw [mem_counting, h_rcv]
    exact mem_counting.mp h_slowest.mem
  · rw [h_rcv]
    by_cases h_eq : j = .send
    · subst h_eq
      exact h_faster.le
    · rw [mem_counting, calc_addWorker_of_ne h_eq] at hj
      rw [calc_addWorker_of_ne h_eq]
      exact h_slowest.le j (mem_counting.mpr hj)
  · -- the stages in front of `send` were faster already
    rw [h_rcv]
    by_cases h_eq : j = .send
    · subst h_eq
      exact h_faster
    · rw [mem_counting, calc_addWorker_of_ne h_eq] at hj
      rw [calc_addWorker_of_ne h_eq]
      refine h_slowest.lt j (mem_counting.mpr hj) ?_
      cases j <;> first | decide | exact absurd rfl h_eq | exact absurd h_lt (by decide)

omit h_nonneg in
/-- If `rcv` is the slowest stage, `send` has one worker more. -/
theorem send_eq_of_rcv_slowest (h_book : Book params throughputData st) (h_net : Net params st)
    (h_slowest : IsSlowest st.calcThroughputs .rcv) :
    st.bestConfig .send = st.bestConfig .rcv + 1 := by
  rcases h_net with h_eq | ⟨h_succ, -⟩
  · have h_same : st.calcThroughputs .send = st.calcThroughputs .rcv := by
      rw [h_book.rate, h_book.rate, h_rates, h_eq]
    have h_count : st.calcThroughputs .send ≠ 0 := by
      rw [h_same]
      exact mem_counting.mp h_slowest.mem
    exact absurd (h_slowest.lt .send (mem_counting.mpr h_count) (by decide)) (by
      rw [h_same]
      exact lt_irrefl _)
  · exact h_succ

/-- **One run of the inner loop** for the slowest stage: it keeps the invariant, and uses up a
worker if it does anything. -/
theorem innerLoop_spec {second : ℚ} (h_book : Book params throughputData st)
    (h_net : Net params st) (h_slowest : IsSlowest st.calcThroughputs k)
    (h_second : ∀ i, i ≠ k → st.calcThroughputs i ≠ 0 → second ≤ st.calcThroughputs i) :
    ∃ st', (∀ fuel, workersLeft params st < fuel →
        innerLoop params throughputData bound k (st.calcThroughputs k) second fuel st = some st') ∧
      Book params throughputData st' ∧ Net params st' ∧
      (workersLeft params st' < workersLeft params st ∨
        st' = st ∧ ¬ (st.Spare params ∧ st.calcThroughputs k < bound)) := by
  by_cases h_go : st.Spare params ∧ st.calcThroughputs k < bound
  · have h_less := workersLeft_addWorker throughputData k h_go.1
    have h_book' := h_book.addWorker h_go.1 k
    have h_count : st.calcThroughputs k ≠ 0 := mem_counting.mp h_slowest.mem
    by_cases h_send : k = .send
    · subst h_send
      have h_eq : st.bestConfig .send = st.bestConfig .rcv := by
        refine h_net.resolve_right fun h => ?_
        exact absurd (h.2.2.unique h_slowest) (by decide)
      have h_same : st.calcThroughputs .rcv = st.calcThroughputs .send := by
        rw [h_book.rate, h_book.rate, h_rates, h_eq]
      have h_break : second ≤ (st.addWorker params throughputData .send).calcThroughputs .send :=
        calc second ≤ st.calcThroughputs .rcv :=
              h_second .rcv (by decide) (by rw [h_same]; exact h_count)
          _ = st.calcThroughputs .send := h_same
          _ ≤ _ := (h_book.calc_lt_addWorker h_nonneg h_count).le
      exact ⟨_, fun fuel h_fuel => innerLoop_break h_go h_break (by omega), h_book',
        net_addWorker_send h_nonneg h_rates h_book h_go.1 h_eq h_slowest, .inl h_less⟩
    · by_cases h_rcv : k = .rcv
      · subst h_rcv
        have h_succ := send_eq_of_rcv_slowest h_rates h_book h_net h_slowest
        -- `rcv` catches up with `send`
        have h_new : (st.addWorker params throughputData .rcv).calcThroughputs .rcv
            = st.calcThroughputs .send := by
          rw [calc_addWorker_self, h_book.rate, h_succ, h_rates]
        have h_count' : st.calcThroughputs .send ≠ 0 := by
          rw [h_book.calc_ne_zero_iff h_nonneg] at h_count ⊢
          rwa [h_rates]
        refine ⟨_, fun fuel h_fuel => innerLoop_break h_go ?_ (by omega), h_book', .inl ?_,
          .inl h_less⟩
        · rw [h_new]
          exact h_second .send (by decide) h_count'
        · rw [config_addWorker_self, config_addWorker_of_ne (by decide), h_succ]
      · have h_eq : st.bestConfig .send = st.bestConfig .rcv :=
          h_net.resolve_right fun h => h_rcv (h_slowest.unique h.2.2)
        obtain ⟨st', h_run, h_rest, h_eq', h_prog⟩ :=
          innerLoop_other bound (st.calcThroughputs k) second h_send h_rcv h_book h_eq
        exact ⟨st', h_run, h_rest, .inl h_eq', h_prog⟩
  · exact ⟨st, fun fuel h_fuel => innerLoop_stop h_go (by omega), h_book, h_net, .inr ⟨rfl, h_go⟩⟩

/-! ### The outer loop -/

variable (bound) in
/-- **The loops end**, and the invariant holds behind them. -/
theorem outerLoop_spec {i j : Stage} (h_ne : i ≠ j) (hi : throughputData i ≠ 0)
    (hj : throughputData j ≠ 0) (h_book : Book params throughputData st) (h_net : Net params st)
    (thr : ℚ) : ∃ st', (∀ fuel, workersLeft params st + 2 ≤ fuel →
        outerLoop params throughputData bound fuel thr st = some st') ∧
      Book params throughputData st' ∧ Net params st' := by
  induction h_left : workersLeft params st using Nat.strong_induction_on generalizing st thr with
  | _ n ih =>
    subst h_left
    by_cases h_go : thr < bound ∧ st.Spare params
    · obtain ⟨a, b, h_first, h_second, h_slowest, h_others⟩ := exists_slowest_second h_ne
        ((h_book.calc_ne_zero_iff h_nonneg).mpr hi) ((h_book.calc_ne_zero_iff h_nonneg).mpr hj)
      obtain ⟨st₁, h_inner, h_book₁, h_net₁, h_prog⟩ :=
        innerLoop_spec h_nonneg h_rates h_book h_net h_slowest h_others
      have h_round : ∀ fuel, workersLeft params st < fuel →
          outerLoop params throughputData bound (fuel + 1) thr st
            = outerLoop params throughputData bound fuel (st.calcThroughputs a) st₁ := by
        intro fuel h_fuel
        refine (if_pos h_go).trans ?_
        rw [h_first, h_second, Option.bind_some, Option.bind_some, h_inner fuel h_fuel]
        rfl
      rcases h_prog with h_less | ⟨rfl, h_stop⟩
      · obtain ⟨st', h_run, h_rest⟩ := ih _ h_less h_book₁ h_net₁ (st.calcThroughputs a) rfl
        refine ⟨st', fun fuel h_fuel => ?_, h_rest⟩
        obtain ⟨fuel, rfl⟩ := Nat.exists_eq_succ_of_ne_zero (Nat.ne_zero_of_lt h_fuel)
        exact (h_round fuel (by omega)).trans (h_run fuel (by omega))
      · -- the slowest stage reaches the bound
        refine ⟨st₁, fun fuel h_fuel => ?_, h_book, h_net⟩
        obtain ⟨fuel, rfl⟩ := Nat.exists_eq_succ_of_ne_zero (Nat.ne_zero_of_lt h_fuel)
        rw [h_round fuel (by omega)]
        obtain ⟨fuel, rfl⟩ := Nat.exists_eq_succ_of_ne_zero (by omega : fuel ≠ 0)
        exact if_neg fun h => h_stop ⟨h.2, h.1⟩
    · refine ⟨st, fun fuel h_fuel => ?_, h_book, h_net⟩
      obtain ⟨fuel, rfl⟩ := Nat.exists_eq_succ_of_ne_zero (Nat.ne_zero_of_lt h_fuel)
      exact if_neg h_go

end Network

/-! ### The network stages -/

/-- **The last step stays within the budget.** -/
theorem Net.setHighestNet_le (h_net : Net params st) (h_book : Book params throughputData st) :
    workers (setHighestNet st.bestConfig) serverStages ≤ params.maxTotalWorkersServer ∧
      workers (setHighestNet st.bestConfig) clientStages ≤ params.maxTotalWorkersClient := by
  have h_server := h_book.server_le
  have h_client := h_book.client_le
  have h_pos := h_book.pos .rcv
  rw [h_book.server] at h_server
  rw [h_book.client] at h_client
  rcases h_net with h_eq | ⟨h_succ, h_spare, -⟩
  · simp only [workers, serverStages, clientStages, setHighestNet, List.map_cons, List.map_nil,
      List.sum_cons, List.sum_nil] at h_server h_client ⊢
    simp [Function.update]
    omega
  · rw [h_book.client] at h_spare
    simp only [workers, serverStages, clientStages, setHighestNet, List.map_cons, List.map_nil,
      List.sum_cons, List.sum_nil] at h_server h_client h_spare ⊢
    simp [Function.update]
    omega


/-- A configuration as it should be. -/
structure WithinBudget (params : Params) (config : Config) : Prop where
  pos : ∀ k, 1 ≤ config k
  net : config .send = config .rcv
  net_le : config .send ≤ 2
  server : config .read + config .deser + config .comp + config .send
    ≤ params.maxTotalWorkersServer
  client : config .rcv + config .decomp + config .ser + config .write
    ≤ params.maxTotalWorkersClient

/-- The final configuration is within the budget. -/
theorem Net.withinBudget (h_net : Net params st) (h_book : Book params throughputData st) :
    WithinBudget params (setHighestNet st.bestConfig) := by
  obtain ⟨h_server, h_client⟩ := h_net.setHighestNet_le h_book
  refine ⟨fun k => ?_, ?_, ?_, ?_, ?_⟩
  · have h_pos := h_book.pos .send
    cases k <;> first
      | exact h_book.pos _
      | exact le_min (le_max_of_le_left h_pos) one_le_two
  · rfl
  · exact min_le_right _ _
  · simpa [workers, serverStages, add_assoc] using h_server
  · simpa [workers, clientStages, add_assoc] using h_client

/-- **The heuristic optimizer terminates within the budget**: there is one result, whatever the fuel,
once it is enough. -/
theorem findBestConfig_withinBudget (params : Params) (throughputData : Stage → ℚ)
    (compression : CompressionLib)
    (h_ratio : compression = .nocomp ∨ params.ratio compression ≠ 0)
    (h_nonneg : ∀ k, 0 ≤ throughputData k)
    (h_two : ∃ i j, i ≠ j ∧ throughputData i ≠ 0 ∧ throughputData j ≠ 0)
    (h_rates : throughputData .send = throughputData .rcv)
    (h_server : 4 ≤ params.maxTotalWorkersServer) (h_client : 4 ≤ params.maxTotalWorkersClient) :
    ∃ best, (∀ fuel, params.maxTotalWorkersServer + params.maxTotalWorkersClient ≤ fuel →
        findBestConfig params throughputData compression fuel = some best) ∧
      WithinBudget params best.par := by
  obtain ⟨i, j, h_ne, hi, hj⟩ := h_two
  -- without a codec there is no ratio to divide by
  obtain ⟨bound, h_bound⟩ : ∃ bound, lowestUpperBoundThr params compression = some bound := by
    unfold lowestUpperBoundThr
    dsimp only
    split
    · next h =>
      rw [if_neg (h_ratio.resolve_left h.1)]
      exact ⟨_, rfl⟩
    · exact ⟨_, rfl⟩
  obtain ⟨a, -, h_slowest, -⟩ := exists_slowest_second h_ne hi hj
  obtain ⟨st, h_run, h_book, h_net⟩ := outerLoop_spec bound h_nonneg h_rates h_ne hi hj
    (.start h_server h_client) (.inl rfl) (throughputData a)
  refine ⟨formatConfig st.bestConfig, fun fuel h_fuel => ?_, h_net.withinBudget h_book⟩
  -- the fuel is enough for every worker that can be added
  have h_left : workersLeft params (.start throughputData) + 2 ≤ fuel := by
    change params.maxTotalWorkersServer - 4 + (params.maxTotalWorkersClient - 4) + 2 ≤ fuel
    omega
  rw [findBestConfig, h_bound, h_slowest, Option.bind_some, Option.bind_some, h_run fuel h_left]
  rfl

/-- The parameters for a machine with seven processors on each side. -/
def sevenProcessors : Params where
  f0 := 3 / 10
  f0_nonneg := threeTenths_nonneg
  f0_lt_one := threeTenths_lt_one
  upperBounds := [("read", 1000), ("write", 5000), ("send", 10000), ("rcv", 10000)]
  upperBounds_ne_nil := slowReader_ne_nil
  ratio _ := 1
  maxTotalWorkersServer := 8
  maxTotalWorkersClient := 8

/-- Rates with a slow network. -/
def slowNetwork : Stage → ℚ
  | .read => 400
  | .deser => 150
  | .comp => 0
  | .send => 100
  | .rcv => 100
  | .decomp => 0
  | .ser => 200
  | .write => 900

theorem slowNetwork_withinBudget :
    ∃ best, (∀ fuel, 8 + 8 ≤ fuel →
        findBestConfig sevenProcessors slowNetwork .nocomp fuel = some best) ∧
      WithinBudget sevenProcessors best.par :=
  findBestConfig_withinBudget sevenProcessors slowNetwork .nocomp (.inl rfl)
    (fun k => by cases k <;> decide) ⟨.send, .rcv, by decide, by decide, by decide⟩ rfl
    (by decide) (by decide)

example : (findBestConfig sevenProcessors slowNetwork .nocomp 16).map (fun best =>
    stages.map best.par) = some [1, 2, 1, 2, 2, 1, 2, 1] := by decide +kernel

end Xdbc.Optimizer.Heuristics
