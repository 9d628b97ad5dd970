import Xdbc.Client.Handout
import Xdbc.Client.Lengths

/-!
# What the test client computes

Each thread of `Tester::runAnalytics` keeps the count, the sum, the minimum and the maximum of the
first attribute over the buffers it is handed, and `runAnalytics` combines what they have found.
The result does not depend on who has been handed which buffer in what order: it is the analysis of
all tuples the server sends, and no addition overflows on the way (`runAnalytics_sent`).

`Analytics.ofValues` says what the analysis of a multiset of values is. Every loop of the code goes
on from the analysis of the values seen to that of one more (`foldlM_values`), as long as they are
few enough for a `long` (`Few`).
-/

namespace Xdbc.Client

open Bytes Pipeline

/-! ### The analysis of a multiset -/

/-- `INT32_MAX`. -/
def int32Max : ℤ := 2 ^ 31 - 1

/-- `INT32_MIN`. -/
def int32Min : ℤ := -2 ^ 31

/-- The result of an addition of type `long`, `none` if it overflows. -/
def long (z : ℤ) : Option ℤ := if -2 ^ 63 ≤ z ∧ z < 2 ^ 63 then some z else none

/-- The variables a thread of `runAnalytics` is given. -/
structure Analytics where
  min : ℤ
  max : ℤ
  sum : ℤ
  cnt : ℤ
  totalcnt : ℤ
  deriving DecidableEq

/-- The analysis of a multiset of values. -/
def Analytics.ofValues (vs : Multiset ℤ) : Analytics where
  min := vs.fold Min.min int32Max
  max := vs.fold Max.max int32Min
  sum := vs.sum
  cnt := vs.card
  totalcnt := vs.card

/-- Values of an `int`, few enough to be added up in a `long`. -/
structure Few (vs : Multiset ℤ) : Prop where
  bounds : ∀ v ∈ vs, int32Min ≤ v ∧ v ≤ int32Max
  card : vs.card < 2 ^ 32

section Values

variable {vs ws : Multiset ℤ}

theorem Few.mono (h : Few ws) (h_le : vs ≤ ws) : Few vs :=
  ⟨fun v hv => h.bounds v (Multiset.mem_of_le h_le hv), (Multiset.card_le_card h_le).trans_lt h.card⟩

/-- A sum is at most as large as its number of summands allows. -/
theorem abs_sum_le (h : ∀ v ∈ vs, int32Min ≤ v ∧ v ≤ int32Max) : |vs.sum| ≤ 2 ^ 31 * (vs.card : ℤ) := by
  induction vs using Multiset.induction_on with
  | empty => simp
  | cons v vs ih =>
    obtain ⟨h_v, h_vs⟩ := Multiset.forall_mem_cons.mp h
    have h_abs : |v| ≤ 2 ^ 31 := abs_le.mpr ⟨h_v.1, h_v.2.trans (by decide)⟩
    calc |(v ::ₘ vs).sum| = |v + vs.sum| := by rw [Multiset.sum_cons]
      _ ≤ |v| + |vs.sum| := abs_add_le _ _
      _ ≤ 2 ^ 31 + 2 ^ 31 * (vs.card : ℤ) := add_le_add h_abs (ih h_vs)
      _ = 2 ^ 31 * ((v ::ₘ vs).card : ℤ) := by rw [Multiset.card_cons]; push_cast; ring

/-- The sum of few values is a `long`. -/
theorem Few.long_sum (h : Few vs) : long vs.sum = some vs.sum := by
  obtain ⟨h_lo, h_hi⟩ := abs_le.mp (abs_sum_le h.bounds)
  have h_card := h.card
  exact if_pos ⟨by omega, by omega⟩

/-- So is their number. -/
theorem Few.long_card (h : Few vs) : long vs.card = some (vs.card : ℤ) := by
  have h_card := h.card
  exact if_pos ⟨by omega, by omega⟩

theorem fold_min_add (vs ws : Multiset ℤ) : (vs + ws).fold Min.min int32Max
    = Min.min (vs.fold Min.min int32Max) (ws.fold Min.min int32Max) := by
  have h := Multiset.fold_add Min.min int32Max int32Max vs ws
  rwa [min_self] at h

theorem fold_max_add (vs ws : Multiset ℤ) : (vs + ws).fold Max.max int32Min
    = Max.max (vs.fold Max.max int32Min) (ws.fold Max.max int32Min) := by
  have h := Multiset.fold_add Max.max int32Min int32Min vs ws
  rwa [max_self] at h

/-- **A loop over values.** If each turn goes on from what `f` says of the values seen to what it says
of these and the next ones, the loop ends with what it says of all of them. -/
theorem foldlM_values {ι α : Type} (f : Multiset ℤ → α) (val : ι → Multiset ℤ)
    {op : α → ι → Option α}
    (h_op : ∀ vs i, Few (vs + val i) → op (f vs) i = some (f (vs + val i))) (is : List ι)
    (h_few : Few (vs + (is.map val).sum)) :
    is.foldlM op (f vs) = some (f (vs + (is.map val).sum)) := by
  induction is generalizing vs with
  | nil => exact congrArg (some <| f ·) (add_zero vs).symm
  | cons i is ih =>
    rw [List.map_cons, List.sum_cons, ← add_assoc] at h_few ⊢
    rw [List.foldlM_cons, h_op vs i (h_few.mono (Multiset.le_add_right _ _)), Option.bind_eq_bind,
      Option.bind_some, ih h_few]

/-- The same for operations that cannot fail. -/
theorem foldl_values {f : Multiset ℤ → ℤ} {op : ℤ → ℤ → ℤ}
    (h_op : ∀ vs ws, op (f vs) (f ws) = f (vs + ws)) (v : Multiset ℤ) (vs : List (Multiset ℤ)) :
    (vs.map f).foldl op (f v) = f (v :: vs).sum := by
  induction vs generalizing v with
  | nil => exact congrArg f (add_zero v).symm
  | cons w vs ih => rw [List.map_cons, List.foldl_cons, h_op, ih, List.sum_cons, List.sum_cons,
      List.sum_cons, add_assoc]

end Values

/-! ### The threads -/

section Threads

variable (env : RuntimeEnv)

/-- One turn of the loop over the tuples, for the first attribute `v`. -/
def Analytics.add (a : Analytics) (v : ℤ) : Option Analytics := do
  let totalcnt ← long (a.totalcnt + 1)
  let cnt ← long (a.cnt + 1)
  let sum ← long (a.sum + v)
  return ⟨if v < a.min then v else a.min, if v > a.max then v else a.max, sum, cnt, totalcnt⟩

/-- The first attribute of tuple `i`, which is taken for an `int`. -/
def firstAttribute (c : Chunk) (i : ℕ) : ℤ :=
  int32OfBytes (slice c.data (if c.iformat = 1 then i * env.tupleSize else i * 4) 4)

/-- The loops of `Tester::analyticsThread` over the tuples of a buffer: there is one for the row
format and one for the columnar format. -/
def analyzeBuffer (a : Analytics) (c : Chunk) : Option Analytics :=
  if c.iformat = 1 ∨ c.iformat = 2 then
    (List.range c.totalTuples).foldlM (fun a i => a.add (firstAttribute env c i)) a
  else some a

/-- The payload of a buffer that `getBuffer` returns, with what is behind its tuples. -/
def BuffWithId.buffer (x : BuffWithId) : Chunk := ⟨x.iformat, x.totalTuples, x.buff⟩

/-- `Tester::analyticsThread` for the buffers the thread is handed. -/
def analyticsThread (xs : List BuffWithId) : Option Analytics :=
  xs.foldlM (fun a x => analyzeBuffer env a x.buffer) ⟨int32Max, int32Min, 0, 0, 0⟩

/-- `*std::min_element(mins, mins + n)`. -/
def minElement : List ℤ → ℤ
  | [] => 0
  | x :: xs => xs.foldl (fun m y => if y < m then y else m) x

/-- `*std::max_element(maxs, maxs + n)`. -/
def maxElement : List ℤ → ℤ
  | [] => 0
  | x :: xs => xs.foldl (fun m y => if m < y then y else m) x

/-- `std::accumulate(xs, xs + n, 0L)`. -/
def accumulate (xs : List ℤ) : Option ℤ := xs.foldlM (fun s x => long (s + x)) 0

/-- What `Tester::runAnalytics` makes of the results of the threads. -/
def combine (rs : List Analytics) : Option Analytics := do
  let sum ← accumulate (rs.map Analytics.sum)
  let cnt ← accumulate (rs.map Analytics.cnt)
  let totalcnt ← accumulate (rs.map Analytics.totalcnt)
  return ⟨minElement (rs.map Analytics.min), maxElement (rs.map Analytics.max), sum, cnt, totalcnt⟩

/-- `Tester::runAnalytics`, when the threads have been joined; `none` if a `long` has overflowed. -/
def runAnalytics (w : Shared) : Option Analytics := do
  let rs ← (List.range env.writeParallelism).mapM fun i => analyticsThread env (w.returned i)
  combine rs

/-! ### What they compute -/

/-- The first attributes of the tuples of a buffer. -/
def firstAttributes (c : Chunk) : Multiset ℤ :=
  if c.iformat = 1 ∨ c.iformat = 2 then
    ((List.range c.totalTuples).map (firstAttribute env c) : List ℤ)
  else 0

/-- The payload has as many tuples as the header says. -/
def Chunk.Complete (c : Chunk) : Prop := c.totalTuples * env.tupleSize ≤ c.data.length

instance (c : Chunk) : Decidable (c.Complete env) := Nat.decLe _ _

variable {env}

theorem firstAttributes_bounds {c : Chunk} :
    ∀ v ∈ firstAttributes env c, int32Min ≤ v ∧ v ≤ int32Max := by
  intro v hv
  unfold firstAttributes at hv
  split at hv
  · obtain ⟨i, -, rfl⟩ := List.mem_map.mp (Multiset.mem_coe.mp hv)
    exact ⟨(int32OfBytes_mem _).1, Int.le_sub_one_of_lt (int32OfBytes_mem _).2⟩
  · exact absurd hv (Multiset.notMem_zero v)

/-- One turn of the loop adds one value. -/
theorem Analytics.add_ofValues (vs : Multiset ℤ) (v : ℤ) (h : Few (vs + {v})) :
    (ofValues vs).add v = some (ofValues (vs + {v})) := by
  obtain ⟨h_lo, h_hi⟩ := h.bounds v (Multiset.mem_add.mpr (.inr (Multiset.mem_singleton_self v)))
  -- the branches of `analyzeBuffer` are `min` and `max`
  have h_min : (vs + {v}).fold Min.min int32Max
      = if v < (ofValues vs).min then v else (ofValues vs).min := by
    rw [fold_min_add, Multiset.fold_singleton, min_eq_left h_hi, min_comm, min_def_lt]
    rfl
  have h_max : (vs + {v}).fold Max.max int32Min
      = if v > (ofValues vs).max then v else (ofValues vs).max := by
    rw [fold_max_add, Multiset.fold_singleton, max_eq_left h_lo, max_def_lt]
    rfl
  have h_card : (ofValues vs).cnt + 1 = ((vs + {v}).card : ℤ) := by
    rw [Multiset.card_add, Multiset.card_singleton]
    rfl
  have h_sum : (ofValues vs).sum + v = (vs + {v}).sum := by
    rw [Multiset.sum_add, Multiset.sum_singleton]
    rfl
  have h_total : (ofValues vs).totalcnt + 1 = ((vs + {v}).card : ℤ) := h_card
  rw [add, h_total, h_card, h_sum, h.long_card, h.long_sum, ← h_min, ← h_max]
  rfl

/-- The loop over a buffer adds the values of its tuples. -/
theorem analyzeBuffer_ofValues (vs : Multiset ℤ) (c : Chunk)
    (h : Few (vs + firstAttributes env c)) :
    analyzeBuffer env (.ofValues vs) c = some (.ofValues (vs + firstAttributes env c)) := by
  by_cases h_format : c.iformat = 1 ∨ c.iformat = 2
  · have h_first : firstAttributes env c
        = ((List.range c.totalTuples).map fun i => ({firstAttribute env c i} : Multiset ℤ)).sum := by
      have h_sum := Multiset.sum_map_singleton (firstAttributes env c)
      rw [firstAttributes, if_pos h_format, Multiset.map_coe, Multiset.sum_coe, List.map_map] at h_sum
      rw [firstAttributes, if_pos h_format, ← h_sum]
      rfl
    rw [h_first] at h ⊢
    rw [analyzeBuffer, if_pos h_format]
    refine foldlM_values Analytics.ofValues _ (fun ws i h_one => ?_) _ h
    exact Analytics.add_ofValues ws _ h_one
  · have h_none : firstAttributes env c = 0 := if_neg h_format
    rw [analyzeBuffer, if_neg h_format, h_none, add_zero]

/-- A thread finds what is in its buffers. -/
theorem analyticsThread_eq (xs : List BuffWithId)
    (h : Few (xs.map fun x => firstAttributes env x.buffer).sum) :
    analyticsThread env xs = some (.ofValues (xs.map fun x => firstAttributes env x.buffer).sum) := by
  rw [← zero_add (List.sum _)] at h ⊢
  exact foldlM_values Analytics.ofValues _
    (fun vs x h_one => analyzeBuffer_ofValues vs x.buffer h_one) xs h

/-- The sums of the threads are added up. -/
theorem accumulate_values {f : Multiset ℤ → ℤ} (h_zero : f 0 = 0)
    (h_add : ∀ vs ws, f (vs + ws) = f vs + f ws)
    (h_long : ∀ vs, Few vs → long (f vs) = some (f vs)) (vs : List (Multiset ℤ))
    (h : Few vs.sum) : accumulate (vs.map f) = some (f vs.sum) := by
  let add : ℤ → Multiset ℤ → Option ℤ := fun s ws => long (s + f ws)
  have h_one : ∀ us ws, Few (us + ws) → add (f us) ws = some (f (us + ws)) := fun us ws h => by
    rw [← h_long _ h, h_add]
  rw [← zero_add vs.sum, ← List.map_id' vs] at h
  have h_loop := foldlM_values f (fun ws => ws) h_one vs h
  rw [List.map_id', zero_add, h_zero] at h_loop
  rw [accumulate, List.foldlM_map]
  exact h_loop

/-- The results of the threads are the result for all their values. -/
theorem combine_ofValues (v : Multiset ℤ) (vs : List (Multiset ℤ)) (h : Few (v :: vs).sum) :
    combine ((v :: vs).map Analytics.ofValues) = some (.ofValues (v :: vs).sum) := by
  -- the comparisons of `std::min_element` and `std::max_element` keep the smaller and the larger
  have h_step : (fun m y : ℤ => if y < m then y else m) = Min.min := by
    funext m y
    rw [min_comm, min_def_lt]
  have h_step' : (fun m y : ℤ => if m < y then y else m) = Max.max := by
    funext m y
    rw [max_def_lt]
  have h_min : minElement ((v :: vs).map fun ws => ws.fold Min.min int32Max)
      = (v :: vs).sum.fold Min.min int32Max := by
    rw [List.map_cons, minElement, h_step]
    exact foldl_values (fun us ws => (fold_min_add us ws).symm) v vs
  have h_max : maxElement ((v :: vs).map fun ws => ws.fold Max.max int32Min)
      = (v :: vs).sum.fold Max.max int32Min := by
    rw [List.map_cons, maxElement, h_step']
    exact foldl_values (fun us ws => (fold_max_add us ws).symm) v vs
  -- no partial sum leaves the range of a `long`
  have h_sum : accumulate ((v :: vs).map Multiset.sum) = some (v :: vs).sum.sum :=
    accumulate_values Multiset.sum_zero Multiset.sum_add (fun _ => Few.long_sum) _ h
  have h_card : accumulate ((v :: vs).map fun ws => (ws.card : ℤ)) = some ((v :: vs).sum.card : ℤ) :=
    accumulate_values rfl (fun us ws => by rw [Multiset.card_add]; push_cast; rfl)
      (fun _ => Few.long_card) _ h
  have h_fields : ∀ f : Analytics → ℤ, ((v :: vs).map Analytics.ofValues).map f
      = (v :: vs).map fun ws => f (Analytics.ofValues ws) := fun f => List.map_map
  rw [combine, h_fields, h_fields, h_fields, h_fields, h_fields]
  simp only [Analytics.ofValues, h_sum, h_card, h_min, h_max]
  rfl

/-- What `runAnalytics` finds is in the buffers the threads have been handed. -/
theorem runAnalytics_eq (h_write : 1 ≤ env.writeParallelism) (w : Shared)
    (h : Few (∑ i ∈ Finset.range env.writeParallelism,
      ((w.returned i).map fun x => firstAttributes env x.buffer).sum)) :
    runAnalytics env w = some (.ofValues (∑ i ∈ Finset.range env.writeParallelism,
      ((w.returned i).map fun x => firstAttributes env x.buffer).sum)) := by
  let found : ℕ → Multiset ℤ := fun i =>
    ((w.returned i).map fun x => firstAttributes env x.buffer).sum
  have h_thread : ∀ i ∈ List.range env.writeParallelism,
      analyticsThread env (w.returned i) = some (.ofValues (found i)) := fun i hi =>
    analyticsThread_eq _ (h.mono (Finset.single_le_sum (f := found) (fun _ _ => Multiset.zero_le _)
      (Finset.mem_range.mpr (List.mem_range.mp hi))))
  have h_threads : (List.range env.writeParallelism).mapM
      (fun i => analyticsThread env (w.returned i))
      = some (((List.range env.writeParallelism).map found).map Analytics.ofValues) := by
    generalize List.range env.writeParallelism = is at h_thread
    induction is with
    | nil => rfl
    | cons i is ih =>
      obtain ⟨h_first, h_rest⟩ := List.forall_mem_cons.mp h_thread
      rw [List.mapM_cons, h_first, ih h_rest]
      rfl
  have h_sum : ∑ i ∈ Finset.range env.writeParallelism, found i
      = ((List.range env.writeParallelism).map found).sum := rfl
  -- `min_element` and `max_element` need a first thread
  obtain ⟨n, hn⟩ := Nat.exists_eq_succ_of_ne_zero (Nat.one_le_iff_ne_zero.mp h_write)
  change Few (∑ i ∈ Finset.range env.writeParallelism, found i) at h
  change _ = some (Analytics.ofValues (∑ i ∈ Finset.range env.writeParallelism, found i))
  rw [runAnalytics, h_threads, Option.bind_eq_bind, Option.bind_some]
  rw [h_sum, hn, List.range_succ_eq_map, List.map_cons] at h ⊢
  exact combine_ofValues _ _ h

/-! ### All of it, from what the server sends -/

/-- The tuples of a complete chunk are read from the bytes the header announces. -/
theorem firstAttributes_chunk (h_tuple : 4 ≤ env.tupleSize) {x : BuffWithId}
    (h : x.chunk.Complete env) : firstAttributes env x.buffer = firstAttributes env x.chunk := by
  have h_length : (x.buff.take x.totalSize).length ≤ x.totalSize := List.length_take_le _ _
  have h_size : x.totalTuples * env.tupleSize ≤ x.totalSize := le_trans h h_length
  have h_first : ∀ i < x.totalTuples,
      firstAttribute env x.buffer i = firstAttribute env x.chunk i := by
    intro i hi
    have h_row : i * env.tupleSize + env.tupleSize ≤ x.totalSize := by
      rw [← Nat.succ_mul]
      exact (Nat.mul_le_mul_right _ hi).trans h_size
    -- a column of `int` ends before the tuples do
    have h_col : i * 4 ≤ i * env.tupleSize := Nat.mul_le_mul_left _ h_tuple
    refine congrArg int32OfBytes (slice_take ?_).symm
    change (if x.iformat = 1 then i * env.tupleSize else i * 4) + 4 ≤ x.totalSize
    split <;> omega
  unfold firstAttributes
  refine if_congr Iff.rfl ?_ rfl
  exact congrArg _ (List.map_congr_left fun i hi => h_first i (List.mem_range.mp hi))

/-- Every packet that arrives whole has as many tuples as its header says. -/
def PacketsComplete (env : RuntimeEnv) (ext : External) : Prop :=
  ∀ c ∈ sent env ext, c.Complete env

variable {ext : External}

/-- **The result does not depend on the run.** When the threads of the tester have exited, what
`runAnalytics` finds is the analysis of the tuples the server sends, and no `long` has overflowed. -/
theorem runAnalytics_sent (h_options : Options env) (h_connected : Connected env ext)
    (h_receives : Receives env ext) (h_tuple : 4 ≤ env.tupleSize)
    (h_complete : PacketsComplete env ext)
    (h_few : ((sent env ext).map (firstAttributes env)).sum.card < 2 ^ 32)
    {s : State (testMachine env ext)}
    (h_run : Reachable (testMachine env ext) never (testInitial env ext) s)
    (h_exited : ∀ i, (s.thread ⟨2, i⟩).Exited) :
    runAnalytics env s.mem.world
      = some (.ofValues ((sent env ext).map (firstAttributes env)).sum) := by
  -- the buffers that were handed out are those that were sent
  have h_sent := handedOut_eq h_options h_connected h_receives h_run h_exited
  have h_reads : ∀ i < env.serParallelism, ∀ x ∈ s.mem.world.returned i,
      firstAttributes env x.buffer = firstAttributes env x.chunk := fun i hi x hx =>
    firstAttributes_chunk h_tuple (h_complete _ (h_sent ▸ mem_handedOut hi hx))
  -- thread by thread, the values are those of the buffers it was given
  have h_total : ∑ i ∈ Finset.range env.writeParallelism,
      ((s.mem.world.returned i).map fun x => firstAttributes env x.buffer).sum
      = ((sent env ext).map (firstAttributes env)).sum := by
    rw [← h_sent, map_handedOut, ← h_options.legacy]
    refine .trans (Finset.sum_congr rfl fun i hi => ?_) (map_sum Multiset.sumAddMonoidHom _ _).symm
    change _ = ((s.mem.world.returned i).map fun x => firstAttributes env x.chunk).sum
    exact congrArg _ (List.map_congr_left fun x hx => h_reads i (Finset.mem_range.mp hi) x hx)
  -- the values are `int`s and there are fewer than 2^32 of them
  have h_values : Few ((sent env ext).map (firstAttributes env)).sum := by
    refine ⟨fun v hv => ?_, h_few⟩
    obtain ⟨c, -, hv⟩ := Multiset.mem_bind.mp hv
    exact firstAttributes_bounds v hv
  rw [← h_total] at h_values ⊢
  exact runAnalytics_eq h_options.write _ h_values

end Threads

/-- The two threads find one value each. -/
theorem runAnalytics_testEnv :
    ∃ s, Reachable (testMachine testEnv (zstdStream 2)) never
        (testInitial testEnv (zstdStream 2)) s ∧
      (s.mem.world.returned 0).map BuffWithId.id = [1] ∧
      runAnalytics testEnv s.mem.world = some ⟨7, 7, 14, 2, 2⟩ := by
  obtain ⟨s, h_run, ⟨h_returned, -⟩, h_exited⟩ := exists_testRun
  have h_complete : PacketsComplete testEnv (zstdStream 2) := by
    rw [PacketsComplete, sent_testEnv]
    decide +kernel
  refine ⟨s, h_run, h_returned, ?_⟩
  rw [runAnalytics_sent options_testEnv (fun _ _ => rfl) (receives_testEnv 2) (by decide)
    h_complete (by rw [sent_testEnv]; decide +kernel) h_run fun i => h_exited ⟨2, i⟩, sent_testEnv]
  decide +kernel

end Xdbc.Client
