import Xdbc.Optimizer.Rates
import Xdbc.Search.Best

/-!
# The brute force optimizer

`find_best_config` goes through all configurations in eight nested loops and keeps the best one. The
loop over `rcv_par` is left at the first value that is not `send_par`, and its first value is 1, so
all configurations with more than one network worker are left out (`mem_configs`).

The search is then exhaustive exactly if the network is not the bottleneck: among the configurations
there is a best one that is no faster than one worker of `send` and one of `rcv`
(`exhaustive_iff`); the other workers of these stages can be taken away from it.
-/

namespace Xdbc.Optimizer.Bruteforce

/-! ### The search -/

/-- `range(a, b)`. -/
def range (a b : ℕ) : List ℕ := List.range' a (b - a)

/-- A configuration by its parallelisms. -/
def toConfig (readPar deserPar compPar sendPar rcvPar decompPar serPar writePar : ℕ) : Config
  | .read => readPar
  | .deser => deserPar
  | .comp => compPar
  | .send => sendPar
  | .rcv => rcvPar
  | .decomp => decompPar
  | .ser => serPar
  | .write => writePar

/-- The configurations the nested loops go through; the `break` ends the loop over `rcv_par`. -/
def configs (maxServer maxClient : ℕ) : List Config :=
  (range 1 (maxServer + 1)).flatMap fun readPar =>
  (range 1 (maxServer + 1 - readPar)).flatMap fun deserPar =>
  (range 1 (maxServer + 1 - (readPar + deserPar))).flatMap fun compPar =>
  (range 1 (maxServer + 1 - (readPar + deserPar + compPar))).flatMap fun sendPar =>
  ((range 1 (maxClient + 1)).takeWhile fun rcvPar => sendPar = rcvPar).flatMap fun rcvPar =>
  (range 1 (maxClient + 1 - rcvPar)).flatMap fun decompPar =>
  (range 1 (maxClient + 1 - (rcvPar + decompPar))).flatMap fun serPar =>
  [1].map fun writePar =>
    toConfig readPar deserPar compPar sendPar rcvPar decompPar serPar writePar

/-- `complibs`. -/
def complibs : List CompressionLib := [.nocomp, .zstd, .lz4, .lzo, .snappy]

/-- A configuration with its `compression_lib`. -/
structure Choice where
  compressionLib : CompressionLib
  par : Config

/-- The `lowest` upper bound for a library; a ratio of zero is an exception. -/
def lowest (params : Params) (comp : CompressionLib) : Option ℚ :=
  let pair := params.minUpperBoundPair
  if (pair.1 = "send" ∨ pair.1 = "rcv") ∧ comp ≠ .nocomp then
    if params.ratio comp = 0 then none else some (pair.2 * 1 / params.ratio comp)
  else some pair.2

/-- The estimate of a configuration by the table of its library. -/
def estimate (params : Params) (throughputDataComps : CompressionLib → Stage → ℚ) (c : Choice) :
    Option ℚ :=
  calculateThroughput params c.par (throughputDataComps c.compressionLib)

section Search

variable (params : Params) (throughputDataComps : CompressionLib → Stage → ℚ)

/-- The innermost body, with `max_throughput` and `best_config`. -/
def evaluate (lowest : ℚ) (acc : ℚ × Option Choice) (c : Choice) : Option (ℚ × Option Choice) :=
  (estimate params throughputDataComps c).map fun thrpt =>
    if thrpt ≤ lowest ∧ acc.1 < thrpt then (thrpt, some c) else acc

/-- The loops for one library. -/
def searchLib (acc : ℚ × Option Choice) (comp : CompressionLib) : Option (ℚ × Option Choice) :=
  (lowest params comp).bind fun lowest =>
    (configs params.maxTotalWorkersServer params.maxTotalWorkersClient).foldlM
      (fun acc par => evaluate params throughputDataComps lowest acc ⟨comp, par⟩) acc

/-- The configuration that is returned. -/
structure BestConfig where
  choice : Choice
  skipSer : ℕ
  skipDeser : ℕ
  bufferSize : ℕ
  serverBuffpoolSize : ℕ
  clientBuffpoolSize : ℕ

/-- The last lines of `find_best_config`, with `format_config`. -/
def formatConfig (c : Choice) : BestConfig where
  choice := c
  skipSer := 0
  skipDeser := 0
  bufferSize := 256
  serverBuffpoolSize := 256 * workers c.par serverStages * 20
  clientBuffpoolSize := 256 * workers c.par clientStages * 20

/-- `find_best_config`; an empty `best_config` has no parallelisms. -/
def findBestConfig : Option BestConfig :=
  (complibs.foldlM (searchLib params throughputDataComps) (0, none)).bind fun acc =>
    acc.2.map formatConfig

end Search

/-! ### What the search is for -/

/-- The configurations that are admissible. -/
structure Admissible (params : Params) (par : Config) : Prop where
  pos : ∀ k, 1 ≤ par k
  server : par .read + par .deser + par .comp + par .send ≤ params.maxTotalWorkersServer
  net : par .rcv = par .send
  client : par .rcv + par .decomp + par .ser ≤ params.maxTotalWorkersClient
  write : par .write = 1

/-- An admissible configuration with the estimate `e`, which is not above the bound. -/
structure Candidate (params : Params) (throughputDataComps : CompressionLib → Stage → ℚ)
    (c : Choice) (e : ℚ) : Prop where
  admissible : Admissible params c.par
  estimate_eq : estimate params throughputDataComps c = some e
  le_lowest : ∃ b, lowest params c.compressionLib = some b ∧ e ≤ b

/-- If there is a candidate, the search finds one with the largest estimate. -/
def Exhaustive (params : Params) (throughputDataComps : CompressionLib → Stage → ℚ) : Prop :=
  (∃ c e, Candidate params throughputDataComps c e) →
    ∃ best e, findBestConfig params throughputDataComps = some best ∧
      Candidate params throughputDataComps best.choice e ∧
      ∀ c' e', Candidate params throughputDataComps c' e' → e' ≤ e

/-- The estimate is no more than one worker of `send` and one of `rcv` achieve. -/
def NetSuffices (throughputDataComps : CompressionLib → Stage → ℚ) (c : Choice) (e : ℚ) : Prop :=
  e ≤ throughputDataComps c.compressionLib .send ∧ e ≤ throughputDataComps c.compressionLib .rcv

/-! ### The loops -/

variable {params : Params} {throughputDataComps : CompressionLib → Stage → ℚ} {c : Choice}
  {par : Config} {e : ℚ}

@[simp] theorem mem_range {a b n : ℕ} : n ∈ range a b ↔ a ≤ n ∧ n < b := by
  rw [range, List.mem_range'_1]
  omega

/-- **The `break`** leaves the loop over `rcv_par` at once, unless `send_par` is 1. -/
theorem mem_rcv {sendPar maxClient n : ℕ} :
    n ∈ (range 1 (maxClient + 1)).takeWhile (fun rcvPar => sendPar = rcvPar)
      ↔ sendPar = 1 ∧ n = 1 ∧ 1 ≤ maxClient := by
  cases maxClient with
  | zero => simp [range]
  | succ m =>
    have h_range : range 1 (m + 1 + 1) = 1 :: List.range' 2 m := rfl
    rw [h_range, List.takeWhile_cons]
    by_cases h_one : sendPar = 1
    · subst h_one
      have h_stop : (List.range' 2 m).takeWhile (fun rcvPar => decide (1 = rcvPar)) = [] := by
        cases m <;> rfl
      simp [h_stop]
    · simp [h_one]

/-- **What the loops go through**: of the admissible configurations, those with one network
worker. -/
theorem mem_configs : par ∈ configs params.maxTotalWorkersServer params.maxTotalWorkersClient ↔
    Admissible params par ∧ par .send = 1 := by
  simp only [configs, List.mem_flatMap, List.mem_map, mem_range, mem_rcv, List.mem_singleton]
  constructor
  · -- the nested loops stay within the two budgets
    rintro ⟨r, hr, d, hd, c, hc, s, hs, v, ⟨rfl, rfl, hv⟩, dc, hdc, se, hse, w, rfl, rfl⟩
    refine ⟨⟨fun k => ?_, ?_, rfl, ?_, rfl⟩, rfl⟩
    · cases k <;> simp only [toConfig] <;> omega
    · simp only [toConfig]
      omega
    · simp only [toConfig]
      omega
  · -- every admissible configuration is met by some choice of the loop variables
    rintro ⟨⟨h_pos, h_server, h_net, h_client, h_write⟩, h_send⟩
    rw [h_send] at h_net
    have h_read := h_pos .read
    have h_deser := h_pos .deser
    have h_comp := h_pos .comp
    have h_decomp := h_pos .decomp
    have h_ser := h_pos .ser
    refine ⟨par .read, by omega, par .deser, by omega, par .comp, by omega, par .send, by omega,
      par .rcv, ⟨h_send, h_net, by omega⟩, par .decomp, by omega, par .ser, by omega, par .write,
      h_write, ?_⟩
    funext k
    cases k <;> rfl

/-! ### The estimates -/

/-- The rates of the stages in a configuration. -/
def rates (params : Params) (throughputDataComps : CompressionLib → Stage → ℚ) (c : Choice)
    (k : Stage) : ℚ :=
  effectiveServiceRate params (throughputDataComps c.compressionLib k) (c.par k)

section Positive

variable (h_pos : ∀ lib k, 0 < throughputDataComps lib k)

include h_pos

/-- All stages count. -/
theorem exists_slowest (h_par : ∀ k, 1 ≤ c.par k) :
    ∃ a, (∀ k, rates params throughputDataComps c a ≤ rates params throughputDataComps c k) ∧
      estimate params throughputDataComps c = some (rates params throughputDataComps c a) := by
  have h_ne : ∀ k, rates params throughputDataComps c k ≠ 0 := fun k =>
    (effectiveServiceRate_pos (h_pos _ k) (h_par k)).ne'
  obtain ⟨a, -, h_first, -, h_slowest, -⟩ :=
    exists_slowest_second Stage.noConfusion (h_ne .read) (h_ne .write)
  refine ⟨a, fun k => h_slowest.le k (mem_counting.mpr (h_ne k)), ?_⟩
  exact (congrArg (Option.map Prod.snd) h_first).trans rfl

/-- **The estimate is the least rate** of all stages. -/
theorem estimate_eq_some (h_par : ∀ k, 1 ≤ c.par k) : estimate params throughputDataComps c = some e
    ↔ (∀ k, e ≤ rates params throughputDataComps c k) ∧
      ∃ k, e = rates params throughputDataComps c k := by
  obtain ⟨a, h_le, h_estimate⟩ := exists_slowest h_pos h_par
  rw [h_estimate, Option.some.injEq]
  constructor
  · rintro rfl
    exact ⟨h_le, a, rfl⟩
  · rintro ⟨h_all, k, rfl⟩
    exact le_antisymm (h_le k) (h_all a)

variable (params) in
/-- There is an estimate. -/
theorem exists_estimate (c : Choice) (h_par : ∀ k, 1 ≤ c.par k) :
    ∃ e, 0 < e ∧ estimate params throughputDataComps c = some e := by
  obtain ⟨a, -, h_estimate⟩ := exists_slowest h_pos h_par
  exact ⟨_, effectiveServiceRate_pos (h_pos _ a) (h_par a), h_estimate⟩

/-- The configuration with one network worker. -/
def single (par : Config) : Config := Function.update (Function.update par .send 1) .rcv 1

omit h_pos in
theorem single_le (h_par : ∀ k, 1 ≤ par k) (k : Stage) : 1 ≤ single par k ∧ single par k ≤ par k := by
  have h_k := h_par k
  by_cases h_rcv : k = .rcv
  · subst h_rcv
    exact ⟨le_rfl, h_k⟩
  · by_cases h_send : k = .send
    · subst h_send
      exact ⟨le_rfl, h_k⟩
    · rw [single, Function.update_of_ne h_rcv, Function.update_of_ne h_send]
      exact ⟨h_k, le_rfl⟩

/-- **Workers the network does not need can be taken away.** -/
theorem Candidate.single (h : Candidate params throughputDataComps c e)
    (h_net : NetSuffices throughputDataComps c e) :
    Candidate params throughputDataComps ⟨c.compressionLib, Bruteforce.single c.par⟩ e := by
  have h_single := single_le h.admissible.pos
  obtain ⟨h_le, k, h_eq⟩ := (estimate_eq_some h_pos h.admissible.pos).mp h.estimate_eq
  have h_all : ∀ j, e ≤ rates params throughputDataComps
      ⟨c.compressionLib, Bruteforce.single c.par⟩ j := by
    -- one worker at the network is enough for `e`, the other stages keep theirs
    intro j
    by_cases h_rcv : j = .rcv
    · subst h_rcv
      exact h_net.2.trans_eq (effectiveServiceRate_one _ _).symm
    · by_cases h_send : j = .send
      · subst h_send
        exact h_net.1.trans_eq (effectiveServiceRate_one _ _).symm
      · have h_same : Bruteforce.single c.par j = c.par j := by
          rw [Bruteforce.single, Function.update_of_ne h_rcv, Function.update_of_ne h_send]
        exact (h_le j).trans_eq (congrArg (effectiveServiceRate params _) h_same.symm)
  refine ⟨⟨fun j => (h_single j).1, ?_, rfl, ?_, h.admissible.write⟩, ?_, h.le_lowest⟩
  · have h_server := h.admissible.server
    have h_send := (h_single .send).2
    change c.par .read + c.par .deser + c.par .comp + Bruteforce.single c.par .send ≤ _
    omega
  · have h_client := h.admissible.client
    have h_rcv := (h_single .rcv).2
    change Bruteforce.single c.par .rcv + c.par .decomp + c.par .ser ≤ _
    omega
  · -- `k` still is the slowest, as no stage is faster than before
    refine (estimate_eq_some h_pos fun j => (h_single j).1).mpr ⟨h_all, k, ?_⟩
    refine le_antisymm (h_all k) ?_
    rw [h_eq]
    exact effectiveServiceRate_le (h_pos _ k).le (h_single k).2

/-! ### The result -/

variable (h_ratio : ∀ lib, lib ≠ .nocomp → params.ratio lib ≠ 0)

omit h_pos in
include h_ratio in
theorem exists_lowest (comp : CompressionLib) : ∃ b, lowest params comp = some b := by
  unfold lowest
  dsimp only
  split
  · next h =>
    rw [if_neg (h_ratio comp h.2)]
    exact ⟨_, rfl⟩
  · exact ⟨_, rfl⟩

omit h_pos in
/-- All choices the loops go through. -/
def choices (params : Params) : List Choice :=
  complibs.flatMap fun comp =>
    (configs params.maxTotalWorkersServer params.maxTotalWorkersClient).map fun par => ⟨comp, par⟩

omit h_pos in
theorem mem_choices : c ∈ choices params ↔ Admissible params c.par ∧ c.par .send = 1 := by
  have h_lib : c.compressionLib ∈ complibs := by
    cases c.compressionLib <;> decide
  rw [choices, List.mem_flatMap, ← mem_configs]
  constructor
  · rintro ⟨comp, -, h⟩
    obtain ⟨par, h_par, rfl⟩ := List.mem_map.mp h
    exact h_par
  · intro h
    exact ⟨c.compressionLib, h_lib, List.mem_map.mpr ⟨c.par, h, rfl⟩⟩

omit h_pos in
/-- **The loops keep the best choice**, when nothing fails. -/
theorem findBestConfig_eq {est : Choice → ℚ} {bound : CompressionLib → ℚ}
    (h_est : ∀ c, (∀ k, 1 ≤ c.par k) → estimate params throughputDataComps c = some (est c))
    (h_bound : ∀ comp, lowest params comp = some (bound comp)) :
    findBestConfig params throughputDataComps
      = ((choices params).foldl (Search.keep est fun c => est c ≤ bound c.compressionLib)
          (0, none)).2.map formatConfig := by
  have h_lib : ∀ comp ∈ complibs, ∀ acc, searchLib params throughputDataComps acc comp
      = some ((configs params.maxTotalWorkersServer params.maxTotalWorkersClient).foldl
          (fun acc par => Search.keep est (fun c => est c ≤ bound c.compressionLib) acc ⟨comp, par⟩)
          acc) := by
    intro comp _ acc
    rw [searchLib, h_bound, Option.bind_some]
    refine Search.foldlM_eq_some (fun par h_par acc => ?_) acc
    rw [evaluate, h_est ⟨comp, par⟩ (mem_configs.mp h_par).1.pos]
    rfl
  rw [findBestConfig, Search.foldlM_eq_some h_lib, Option.bind_some, choices, List.foldl_flatMap]
  simp only [List.foldl_map]

variable (params throughputDataComps) in
include h_ratio in
/-- **When the search is exhaustive**: when among the candidates there is always one that is no
slower, for which one network worker on each side is enough. -/
theorem exhaustive_iff : Exhaustive params throughputDataComps ↔
    ∀ c e, Candidate params throughputDataComps c e →
      ∃ c' e', Candidate params throughputDataComps c' e' ∧ e ≤ e' ∧
        NetSuffices throughputDataComps c' e' := by
  choose! est h_est_pos h_est using exists_estimate params h_pos
  choose bound h_bound using exists_lowest h_ratio
  have h_find := findBestConfig_eq h_est h_bound
  have h_best := Search.isBest_foldl est (fun c => est c ≤ bound c.compressionLib) 0
    (choices params)
  rw [Exhaustive, h_find]
  generalize (choices params).foldl _ _ = acc at h_best
  constructor
  · intro h c e h_cand
    obtain ⟨best, e', h_run, h_cand', h_max⟩ := h ⟨c, e, h_cand⟩
    refine ⟨best.choice, e', h_cand', h_max c e h_cand, ?_⟩
    obtain ⟨b, hb, rfl⟩ := Option.map_eq_some_iff.mp h_run
    have h_single : b.par .send = 1 := by
      rcases h_best.found with rfl | ⟨b', hb', -, rfl⟩
      · cases hb
      · cases hb
        exact (mem_choices.mp hb').2
    obtain ⟨h_le, -⟩ := (estimate_eq_some h_pos h_cand'.admissible.pos).mp h_cand'.estimate_eq
    constructor
    · refine (h_le .send).trans_eq ?_
      change effectiveServiceRate params _ (b.par .send) = _
      rw [h_single, effectiveServiceRate_one]
    · refine (h_le .rcv).trans_eq ?_
      change effectiveServiceRate params _ (b.par .rcv) = _
      rw [show b.par .rcv = 1 from h_cand'.admissible.net.trans h_single, effectiveServiceRate_one]
  · intro h h_some
    -- no candidate is better than what the search has in the end
    have h_ge : ∀ c e, Candidate params throughputDataComps c e → e ≤ acc.1 ∧ 0 < acc.1 := by
      intro c e h_cand
      obtain ⟨c', e', h_cand', h_le, h_net⟩ := h c e h_cand
      have h_one := h_cand'.single h_pos h_net
      have h_eq := h_one.estimate_eq
      rw [h_est _ h_one.admissible.pos, Option.some.injEq] at h_eq
      obtain ⟨b, hb, h_bound_le⟩ := h_one.le_lowest
      rw [h_bound, Option.some.injEq] at hb
      have h_acc := h_best.value_le _ (mem_choices.mpr ⟨h_one.admissible, rfl⟩)
        (by rw [h_eq, hb]; exact h_bound_le)
      rw [h_eq] at h_acc
      refine ⟨h_le.trans h_acc, lt_of_lt_of_le ?_ h_acc⟩
      rw [← h_eq]
      exact h_est_pos _ h_one.admissible.pos
    obtain ⟨c, e, h_cand⟩ := h_some
    rcases h_best.found with rfl | ⟨b, hb, h_allowed, rfl⟩
    · exact absurd (h_ge c e h_cand).2 (lt_irrefl _)
    · have h_adm := (mem_choices.mp hb).1
      exact ⟨formatConfig b, est b, rfl, ⟨h_adm, h_est b h_adm.pos, _, h_bound _, h_allowed⟩,
        fun c' e' h_cand' => (h_ge c' e' h_cand').1⟩

end Positive

/-- Room for one worker more than the stages need. -/
def fiveWorkers : Params where
  f0 := 3 / 10
  f0_nonneg := threeTenths_nonneg
  f0_lt_one := threeTenths_lt_one
  upperBounds := [("read", 1000), ("write", 5000), ("send", 10000), ("rcv", 10000)]
  upperBounds_ne_nil := slowReader_ne_nil
  ratio _ := 1
  maxTotalWorkersServer := 5
  maxTotalWorkersClient := 4

/-- The rates of all libraries, when the network and the sink have the given ones. -/
def tables (net write : ℚ) (_ : CompressionLib) : Stage → ℚ
  | .send => net
  | .rcv => net
  | .write => write
  | _ => 300

/-- The sink is slower than the network. -/
theorem exhaustive_slowSink : Exhaustive fiveWorkers (tables 300 100) := by
  have h_pos : ∀ lib k, 0 < tables 300 100 lib k := fun lib k => by
    cases lib <;> cases k <;> decide +kernel
  refine (exhaustive_iff fiveWorkers (tables 300 100) h_pos fun _ _ => one_ne_zero).mpr
    fun c e h_cand => ⟨c, e, h_cand, le_rfl, ?_⟩
  have h_write : e ≤ 100 := by
    have h_le := ((estimate_eq_some h_pos h_cand.admissible.pos).mp h_cand.estimate_eq).1 .write
    rwa [rates, h_cand.admissible.write, effectiveServiceRate_one] at h_le
  exact ⟨h_write.trans (by decide +kernel : (100 : ℚ) ≤ 300),
    h_write.trans (by decide +kernel : (100 : ℚ) ≤ 300)⟩

/-- The network is the bottleneck: two workers on each side are better than one. -/
theorem not_exhaustive_slowNetwork : ¬ Exhaustive fiveWorkers (tables 100 300) := by
  have h_two : Candidate fiveWorkers (tables 100 300) ⟨.nocomp, toConfig 1 1 1 2 2 1 1 1⟩ 170 :=
    ⟨⟨fun k => by cases k <;> decide, by decide, rfl, by decide, rfl⟩, by decide +kernel,
      1000, by decide +kernel, by decide +kernel⟩
  intro h
  obtain ⟨best, e, h_run, h_cand, h_max⟩ := h ⟨_, _, h_two⟩
  have h_value : (findBestConfig fiveWorkers (tables 100 300)).bind
      (fun best => estimate fiveWorkers (tables 100 300) best.choice) = some 100 := by
    decide +kernel
  rw [h_run, Option.bind_some, h_cand.estimate_eq, Option.some.injEq] at h_value
  subst h_value
  exact absurd (h_max _ _ h_two) (by decide +kernel)

end Xdbc.Optimizer.Bruteforce
