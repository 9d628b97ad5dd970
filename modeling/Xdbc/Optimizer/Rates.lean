import Mathlib
import Xdbc.Search.Ranking

/-!
# The rates of the stages

Both optimizers estimate a configuration by the rate of its slowest stage: a stage has the rate that
was measured with one worker, more workers raise it (`effectiveServiceRate`), and `nthSlowest` ranks
the stages. Stages without a measured rate do not count.
-/

namespace Xdbc.Optimizer

/-! ### Stages and configurations -/

/-- A stage of the pipeline, in the order of the keys of a throughput table. -/
inductive Stage where
  | read
  | deser
  | comp
  | send
  | rcv
  | decomp
  | ser
  | write
  deriving DecidableEq

namespace Stage

/-- The position of the key. -/
def index : Stage → ℕ
  | read => 0
  | deser => 1
  | comp => 2
  | send => 3
  | rcv => 4
  | decomp => 5
  | ser => 6
  | write => 7

theorem index_injective : Function.Injective index := by
  intro j k h
  cases j <;> cases k <;> first | rfl | cases h

instance : LinearOrder Stage := LinearOrder.lift' index index_injective

end Stage

/-- The keys of a throughput table, in order. -/
def stages : List Stage := [.read, .deser, .comp, .send, .rcv, .decomp, .ser, .write]

/-- `server_stages`. -/
def serverStages : List Stage := [.read, .deser, .comp, .send]

/-- `client_stages`. -/
def clientStages : List Stage := [.rcv, .decomp, .ser, .write]

theorem mem_stages (k : Stage) : k ∈ stages := by cases k <;> decide

theorem stages_pairwise : stages.Pairwise (· < ·) := by decide

/-- The parallelism of every stage. -/
abbrev Config := Stage → ℕ

/-- The workers of some stages. -/
def workers (config : Config) (ks : List Stage) : ℕ := (ks.map config).sum

/-- A compression library. -/
inductive CompressionLib where
  | nocomp
  | zstd
  | lz4
  | lzo
  | snappy
  deriving DecidableEq

/-- What an optimizer is created with. `f0` is a fraction; `optimize` puts the rate of the network
under `send` and `rcv` into every table of upper bounds, so there is one. -/
structure Params where
  f0 : ℚ
  f0_nonneg : 0 ≤ f0
  f0_lt_one : f0 < 1
  upperBounds : List (String × ℚ)
  upperBounds_ne_nil : upperBounds ≠ []
  /-- `params[f"{lib}_ratio"]`. -/
  ratio : CompressionLib → ℚ
  maxTotalWorkersServer : ℕ
  maxTotalWorkersClient : ℕ

/-- `optimize` sets `f0` to 0.3, which is not negative. -/
theorem threeTenths_nonneg : (0 : ℚ) ≤ 3 / 10 := by norm_num

theorem threeTenths_lt_one : (3 / 10 : ℚ) < 1 := by norm_num

/-- The bounds of a reader that is slower than the writer, and both slower than the network. -/
theorem slowReader_ne_nil :
    [("read", (1000 : ℚ)), ("write", 5000), ("send", 10000), ("rcv", 10000)] ≠ [] :=
  List.cons_ne_nil _ _

/-- `min_upper_bound_pair`: the first item with the least value. -/
def Params.minUpperBoundPair (params : Params) : String × ℚ :=
  params.upperBounds.tail.foldl (fun least item => if item.2 < least.2 then item else least)
    (params.upperBounds.head params.upperBounds_ne_nil)

/-- The least upper bound is one of them. -/
theorem Params.minUpperBoundPair_mem (params : Params) :
    params.minUpperBoundPair ∈ params.upperBounds := by
  have h_fold : ∀ (items : List (String × ℚ)) (least : String × ℚ),
      items.foldl (fun least item => if item.2 < least.2 then item else least) least
        ∈ least :: items := by
    intro items
    induction items with
    | nil => exact fun least => List.mem_singleton_self least
    | cons item items ih =>
      intro least
      rw [List.foldl_cons]
      split
      · exact List.mem_cons_of_mem _ (ih item)
      · rcases List.mem_cons.mp (ih least) with h_eq | h_mem
        · exact List.mem_cons.mpr (.inl h_eq)
        · exact List.mem_cons_of_mem _ (List.mem_cons_of_mem _ h_mem)
  have h_mem := h_fold params.upperBounds.tail (params.upperBounds.head params.upperBounds_ne_nil)
  rwa [List.cons_head_tail] at h_mem

/-! ### The rates -/

/-- `effective_service_rate`. -/
def effectiveServiceRate (params : Params) (baseRate : ℚ) (workers : ℕ) : ℚ :=
  (params.f0 + (1 - params.f0) * workers) * baseRate

/-- `nth_slowest`: the items with value 0 are left out. -/
def nthSlowest (data : Stage → ℚ) (n : ℕ) : Option (Stage × ℚ) :=
  (Search.ranked data (stages.filter (data · ≠ 0)))[n]?.map fun k => (k, data k)

/-- `calculate_throughput`: the rate of the slowest stage; with no rate at all, `None` has no
item. -/
def calculateThroughput (params : Params) (config : Config) (baseThroughputs : Stage → ℚ) :
    Option ℚ :=
  (nthSlowest (fun k => effectiveServiceRate params (baseThroughputs k) (config k)) 0).map Prod.snd

variable {params : Params} {rate : ℚ} {n : ℕ}

@[simp] theorem effectiveServiceRate_one (params : Params) (rate : ℚ) :
    effectiveServiceRate params rate 1 = rate := by
  unfold effectiveServiceRate
  push_cast
  ring

/-- **Another worker helps.** -/
theorem effectiveServiceRate_lt (h_rate : 0 < rate) {m : ℕ} (h_lt : n < m) :
    effectiveServiceRate params rate n < effectiveServiceRate params rate m := by
  refine mul_lt_mul_of_pos_right ?_ h_rate
  have h_frac : 0 < 1 - params.f0 := sub_pos.mpr params.f0_lt_one
  have h_cast : (n : ℚ) < m := Nat.cast_lt.mpr h_lt
  exact add_lt_add_right (mul_lt_mul_of_pos_left h_cast h_frac) _

theorem effectiveServiceRate_pos (h_rate : 0 < rate) (hn : 1 ≤ n) :
    0 < effectiveServiceRate params rate n := by
  rcases hn.eq_or_lt with rfl | h_lt
  · rwa [effectiveServiceRate_one]
  · calc 0 < rate := h_rate
      _ = effectiveServiceRate params rate 1 := (effectiveServiceRate_one _ _).symm
      _ < effectiveServiceRate params rate n := effectiveServiceRate_lt h_rate h_lt

/-- More workers do no harm. -/
theorem effectiveServiceRate_le (h_rate : 0 ≤ rate) {m : ℕ} (h_le : n ≤ m) :
    effectiveServiceRate params rate n ≤ effectiveServiceRate params rate m := by
  rcases h_rate.eq_or_lt with rfl | h_pos
  · exact le_of_eq (by simp only [effectiveServiceRate, mul_zero])
  · rcases h_le.eq_or_lt with rfl | h_lt
    · exact le_rfl
    · exact (effectiveServiceRate_lt h_pos h_lt).le

/-! ### The slowest stages -/

variable {data : Stage → ℚ} {k : Stage}

/-- The stages that count. -/
theorem mem_counting : k ∈ stages.filter (data · ≠ 0) ↔ data k ≠ 0 := by
  rw [List.mem_filter, decide_eq_true_iff, and_iff_right (mem_stages k)]

theorem counting_pairwise (data : Stage → ℚ) :
    (stages.filter (data · ≠ 0)).Pairwise (· < ·) := stages_pairwise.filter _

/-- The stage `k` is the first of the slowest ones that count. -/
abbrev IsSlowest (data : Stage → ℚ) (k : Stage) : Prop :=
  Search.IsFirst data (stages.filter (data · ≠ 0)) k

/-- The slowest stage. -/
theorem isSlowest_of_nthSlowest {item : Stage × ℚ} (h : nthSlowest data 0 = some item) :
    IsSlowest data item.1 ∧ item.2 = data item.1 := by
  obtain ⟨k, hk, rfl⟩ := Option.map_eq_some_iff.mp h
  refine ⟨Search.isFirst_of_head (counting_pairwise data) ?_, rfl⟩
  rw [List.head?_eq_getElem?]
  exact hk

/-- **With two rates there are a slowest and a second stage**, and no other stage than the slowest
one is slower than the second. -/
theorem exists_slowest_second {j k : Stage} (h_ne : j ≠ k) (hj : data j ≠ 0) (hk : data k ≠ 0) :
    ∃ a b, nthSlowest data 0 = some (a, data a) ∧ nthSlowest data 1 = some (b, data b) ∧
      IsSlowest data a ∧ ∀ i, i ≠ a → data i ≠ 0 → data b ≤ data i := by
  obtain ⟨a, b, rest, h_ranked⟩ : ∃ a b rest,
      Search.ranked data (stages.filter (data · ≠ 0)) = a :: b :: rest :=
    Search.exists_first_two (mem_counting.mpr hj) (mem_counting.mpr hk) h_ne
  have h_first : nthSlowest data 0 = some (a, data a) := by
    rw [nthSlowest, h_ranked]
    rfl
  have h_second : nthSlowest data 1 = some (b, data b) := by
    rw [nthSlowest, h_ranked]
    rfl
  exact ⟨a, b, h_first, h_second, (isSlowest_of_nthSlowest h_first).1,
    fun i h_ne hi => Search.second_le h_ranked (mem_counting.mpr hi) h_ne⟩

/-- The second stage is another one than the slowest one, and counts. -/
theorem second_ne_first {first second : Stage × ℚ} (h_first : nthSlowest data 0 = some first)
    (h_second : nthSlowest data 1 = some second) :
    first.1 ≠ second.1 ∧ data second.1 ≠ 0 ∧ second.2 = data second.1 := by
  obtain ⟨a, ha, rfl⟩ := Option.map_eq_some_iff.mp h_first
  obtain ⟨b, hb, rfl⟩ := Option.map_eq_some_iff.mp h_second
  refine ⟨fun h_eq => ?_, ?_, rfl⟩
  · have h_nodup : (Search.ranked data (stages.filter (data · ≠ 0))).Nodup :=
      (Search.ranked_perm data _).nodup_iff.mpr ((counting_pairwise data).imp ne_of_lt)
    have h_same : a = b := h_eq
    exact (List.nodup_iff_getElem?_ne_getElem?.mp h_nodup) 0 1 zero_lt_one
      (List.getElem?_eq_some_iff.mp hb).1 (ha.trans (h_same ▸ hb.symm))
  · exact mem_counting.mp ((Search.mem_ranked data).mp (List.mem_of_getElem? hb))

end Xdbc.Optimizer
