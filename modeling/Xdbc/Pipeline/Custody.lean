import Xdbc.Pipeline.Machine

/-!
# Custody of the buffers

Nothing locks a buffer. What keeps two threads from using one buffer at the same time is that
every id is in exactly one place: in one queue, or in the hands of one thread.

A `Custody` says which ids a local state holds (`held`) and that every program is `Honest`: one
operation at a time, a pop hands the thread the popped id, a push takes away one it held, nothing
else changes what it holds. The obligation is about a single program, and asks nothing of a local
state in `bad`.

The conserved quantity is `Custody.total`, the multiset of all ids in the queues and in the hands
of threads, exited ones included. `Custody.Kept.step` is its step lemma, `Custody.kept` the run
lemma. If the pool has no repetition, then an id occurs once in all (`Kept.count_eq_one`), two
threads hold disjoint sets of ids (`Kept.held_disjoint`) and no held id is queued
(`Kept.notMem_queue`).
-/

namespace Pipeline

open Function Finset

variable {n : ℕ} {L : Fin n → Type} {β σ : Type}

/-! ### The ids of a queue -/

/-- The buffer ids in a queue: its items without the end markers. -/
def ids (xs : List ℤ) : Multiset ℤ := (xs.filter (· ≠ marker) : List ℤ)

@[simp] theorem ids_nil : ids [] = 0 := rfl

@[simp] theorem ids_cons_marker (xs : List ℤ) : ids (marker :: xs) = ids xs := by
  simp [ids]

theorem ids_cons {v : ℤ} (hv : v ≠ marker) (xs : List ℤ) : ids (v :: xs) = v ::ₘ ids xs := by
  simp [ids, hv]

theorem ids_append (xs ys : List ℤ) : ids (xs ++ ys) = ids xs + ids ys := by
  simp [ids]

@[simp] theorem ids_append_marker (xs : List ℤ) : ids (xs ++ [marker]) = ids xs := by
  simp [ids_append]

theorem ids_append_singleton {v : ℤ} (hv : v ≠ marker) (xs : List ℤ) :
    ids (xs ++ [v]) = v ::ₘ ids xs := by
  rw [ids_append, ids_cons hv, ids_nil, Multiset.add_cons, add_zero]

theorem ids_of_notMem {xs : List ℤ} (h : marker ∉ xs) : ids xs = (xs : Multiset ℤ) := by
  rw [ids, List.filter_eq_self.mpr]
  intro v hv
  exact decide_eq_true fun h_eq => h (h_eq ▸ hv)

theorem mem_ids {v : ℤ} {xs : List ℤ} : v ∈ ids xs ↔ v ∈ xs ∧ v ≠ marker := by
  simp [ids]

theorem card_ids_le (xs : List ℤ) : (ids xs).card ≤ xs.length := by
  rw [ids, Multiset.coe_card]
  exact List.length_filter_le _ xs

theorem count_ids {v : ℤ} (hv : v ≠ marker) (xs : List ℤ) : (ids xs).count v = xs.count v := by
  rw [ids, Multiset.coe_count, List.count_filter (by simpa using hv)]

/-- The first `N` ids. -/
def firstIds (N : ℕ) : List ℤ := (List.range N).map fun i : ℕ => (i : ℤ)

theorem mem_firstIds {N : ℕ} {b : ℤ} : b ∈ firstIds N ↔ 0 ≤ b ∧ b < N := by
  rw [firstIds, List.mem_map]
  constructor
  · rintro ⟨i, h_mem, rfl⟩
    have := List.mem_range.mp h_mem
    omega
  · intro h
    exact ⟨b.toNat, List.mem_range.mpr (by omega), by omega⟩

theorem nodup_firstIds (N : ℕ) : (firstIds N).Nodup :=
  List.Nodup.map (fun _ _ h => Int.ofNat.inj h) List.nodup_range

theorem marker_notMem_firstIds (N : ℕ) : marker ∉ firstIds N := fun h =>
  absurd (mem_firstIds.mp h).1 (by decide)

theorem ne_marker_of_mem_firstIds {N : ℕ} {b : ℤ} (h : b ∈ firstIds N) : b ≠ marker :=
  ne_of_mem_of_not_mem h (marker_notMem_firstIds N)

/-! ### The obligation of a program -/

/-- What custody asks of the operation `op` of a thread in local state `l`, in a pipeline of `n`
stages. `wf` is what may be assumed of a local state; every operation keeps it unless it leads to
a local state in `bad`. -/
def Honest (n : ℕ) {L₀ : Type} (held : L₀ → Multiset ℤ) (wf bad : L₀ → Prop) (l : L₀) :
    Op L₀ β σ → Prop
  | .pop q k =>
    (∀ v, q < n → v ≠ marker → ¬ bad (k v) → wf (k v) ∧ held (k v) = v ::ₘ held l) ∧
    (0 < q → q < n → ¬ bad (k marker) → wf (k marker) ∧ held (k marker) = held l) ∧
    (∀ v, n ≤ q → ¬ bad (k v) → wf (k v) ∧ held (k v) = held l)
  | .push q v l' =>
    q < n ∧ v ≠ marker ∧ (¬ bad l' → wf l' ∧ held l = v ::ₘ held l')
  | .work _ f => ∀ m, ¬ bad (f m).2 → wf (f m).2 ∧ held (f m).2 = held l
  | .leave => True
  | .quit => True

/-- No buffer in hand is the end marker. -/
def NoMarker {L₀ : Type} (held : L₀ → Multiset ℤ) (l : L₀) : Prop :=
  ∀ b ∈ held l, b ≠ marker

/-- Every local state the operation leads to satisfies `inv`. -/
def Op.Leads {L₀ : Type} (inv : L₀ → Prop) : Op L₀ β σ → Prop
  | .pop _ k => ∀ v, inv (k v)
  | .push _ _ l' => inv l'
  | .work _ f => ∀ m, inv (f m).2
  | .leave => True
  | .quit => True

/-- What every operation leads to may be assumed of every local state. -/
theorem Honest.and {L₀ : Type} {held : L₀ → Multiset ℤ} {wf bad inv : L₀ → Prop} {l : L₀}
    {op : Op L₀ β σ} (h : Honest n held wf bad l op) (h_inv : op.Leads inv) :
    Honest n held (fun l => wf l ∧ inv l) bad l op := by
  cases op with
  | pop q k =>
    obtain ⟨h_id, h_marker, h_private⟩ := h
    exact ⟨fun v hq hv h_not => ⟨⟨(h_id v hq hv h_not).1, h_inv v⟩, (h_id v hq hv h_not).2⟩,
      fun h_pos hq h_not => ⟨⟨(h_marker h_pos hq h_not).1, h_inv _⟩, (h_marker h_pos hq h_not).2⟩,
      fun v hq h_not => ⟨⟨(h_private v hq h_not).1, h_inv v⟩, (h_private v hq h_not).2⟩⟩
  | push q v l' =>
    obtain ⟨hq, hv, h_push⟩ := h
    exact ⟨hq, hv, fun h_not => ⟨⟨(h_push h_not).1, h_inv⟩, (h_push h_not).2⟩⟩
  | work bs f => exact fun m h_not => ⟨⟨(h m h_not).1, h_inv m⟩, (h m h_not).2⟩
  | leave => trivial
  | quit => trivial

/-- Which ids a local state holds, and that the program of every thread handles them honestly. -/
structure Custody (M : Machine n L β σ) (bad : (t : Tid n M.par) → L t.1 → Prop) where
  /-- The ids named by the live local variables. -/
  held : (k : Fin n) → L k → Multiset ℤ
  /-- The local states a thread can be in. -/
  wf : (t : Tid n M.par) → L t.1 → Prop
  honest : ∀ t l, wf t l → Honest n (held t.1) (wf t) (bad t) l (M.prog t l)

namespace Custody

variable {M : Machine n L β σ} {bad : (t : Tid n M.par) → L t.1 → Prop} (C : Custody M bad)

/-- All ids: those in the queues of the pipeline and those in the hands of threads. -/
def total (queue : ℕ → List ℤ) (thread : (t : Tid n M.par) → Thread (L t.1)) : Multiset ℤ :=
  ∑ q ∈ range n, ids (queue q) + ∑ t, C.held t.1 (thread t).loc

/-! ### How one step changes the total -/

section Update

variable (queue : ℕ → List ℤ) (thread : (t : Tid n M.par) → Thread (L t.1)) (t : Tid n M.par)
  (th : Thread (L t.1))

theorem total_update_thread :
    C.total queue (update thread t th) + C.held t.1 (thread t).loc
      = C.total queue thread + C.held t.1 th.loc := by
  unfold total
  rw [add_assoc, sum_update_add (fun t th => C.held t.1 th.loc) thread (mem_univ t) th, add_assoc]

theorem total_update {q : ℕ} (hq : q < n) (xs : List ℤ) :
    C.total (update queue q xs) (update thread t th) + (ids (queue q) + C.held t.1 (thread t).loc)
      = C.total queue thread + (ids xs + C.held t.1 th.loc) := by
  have hthread := C.total_update_thread (update queue q xs) thread t th
  have hqueue := sum_update_add (fun _ xs => ids xs) queue (mem_range.mpr hq) xs
  rw [add_comm (ids _), ← add_assoc, hthread, add_right_comm]
  unfold total
  rw [add_right_comm (∑ q' ∈ range n, ids (update queue q xs q')), hqueue]
  simp only [add_assoc, add_comm, add_left_comm]

/-- An exchange between a queue and a thread that loses nothing leaves the total alone. -/
theorem total_update_eq {q : ℕ} (hq : q < n) {xs : List ℤ}
    (h : ids xs + C.held t.1 th.loc = ids (queue q) + C.held t.1 (thread t).loc) :
    C.total (update queue q xs) (update thread t th) = C.total queue thread := by
  have hup := C.total_update queue thread t th hq xs
  rw [h] at hup
  exact add_right_cancel hup

theorem total_update_thread_eq (h : C.held t.1 th.loc = C.held t.1 (thread t).loc) :
    C.total queue (update thread t th) = C.total queue thread := by
  have hup := C.total_update_thread queue thread t th
  rw [h] at hup
  exact add_right_cancel hup

/-- A queue outside the pipeline does not count. -/
theorem total_update_other {q : ℕ} (hq : n ≤ q) (xs : List ℤ) :
    C.total (update queue q xs) thread = C.total queue thread := by
  unfold total
  rw [sum_update_of_notMem (fun _ xs => ids xs) queue (by simpa using hq) xs]

end Update

/-- The invariant: local states are well formed, no id is lost or duplicated, and the free list
holds no end marker. -/
structure Kept (pool : Multiset ℤ) (s : State M) : Prop where
  wf : ∀ t, C.wf t (s.thread t).loc
  total : C.total s.queue s.thread = pool
  free : marker ∉ s.queue 0

/-- A thread whose local state stays well formed keeps all of them so. -/
private theorem wf_update {thread : (t : Tid n M.par) → Thread (L t.1)} {t : Tid n M.par}
    {th : Thread (L t.1)}
    (h : ∀ t, C.wf t (thread t).loc) (h_new : C.wf t th.loc) :
    ∀ t', C.wf t' (update thread t th t').loc := by
  intro t'
  by_cases h_eq : t' = t
  · subst h_eq; rwa [update_self]
  · rw [update_of_ne h_eq]; exact h t'

/-- The free list stays free of markers if what it is updated to is. -/
private theorem free_update {queue : ℕ → List ℤ} {q : ℕ} {xs : List ℤ}
    (h : marker ∉ queue 0) (h_new : q = 0 → marker ∉ xs) : marker ∉ update queue q xs 0 := by
  by_cases h_eq : q = 0
  · subst h_eq; rw [update_self]; exact h_new rfl
  · rw [update_of_ne (Ne.symm h_eq)]; exact h

/-- **Step lemma.** Every step to a good local state keeps the invariant. -/
theorem Kept.step {pool : Multiset ℤ} {s s' : State M} {t : Tid n M.par}
    (hI : C.Kept pool s) (hstep : Step M s t s') (hbad : ¬ bad t (s'.thread t).loc) :
    C.Kept pool s' := by
  have hn : 0 < n := t.1.pos
  have h_wf := hI.wf t
  cases hstep with
  | @pop l q k v rest hrun hop hq =>
    simp only [update_self, Thread.loc_running] at hbad
    rw [hrun, Thread.loc_running] at h_wf
    have h_honest := C.honest t l h_wf
    rw [hop] at h_honest
    have h_rest : q = 0 → marker ∉ rest := by
      rintro rfl hm
      exact hI.free (by rw [hq]; exact List.mem_cons_of_mem _ hm)
    rcases Nat.lt_or_ge q n with h_lt | h_ge
    · by_cases hv : v = marker
      · -- a marker is never popped from the free list
        subst hv
        have h_pos : 0 < q := by
          rcases Nat.eq_zero_or_pos q with rfl | h
          · exact absurd (by rw [hq]; exact List.mem_cons_self) hI.free
          · exact h
        obtain ⟨h_new, h_held⟩ := h_honest.2.1 h_pos h_lt hbad
        refine ⟨C.wf_update hI.wf h_new, ?_, free_update hI.free h_rest⟩
        rw [← hI.total]
        refine C.total_update_eq _ _ _ _ h_lt ?_
        rw [hq, hrun, ids_cons_marker, Thread.loc_running, Thread.loc_running, h_held]
      · -- the id moves from the queue into the hands of the thread
        obtain ⟨h_new, h_held⟩ := h_honest.1 v h_lt hv hbad
        refine ⟨C.wf_update hI.wf h_new, ?_, free_update hI.free h_rest⟩
        rw [← hI.total]
        refine C.total_update_eq _ _ _ _ h_lt ?_
        rw [hq, hrun, ids_cons hv, Thread.loc_running, Thread.loc_running, h_held,
          Multiset.add_cons, Multiset.cons_add]
    · -- the queue is a private one: its items are no ids of the pool
      obtain ⟨h_new, h_held⟩ := h_honest.2.2 v h_ge hbad
      refine ⟨C.wf_update hI.wf h_new, ?_, free_update hI.free h_rest⟩
      rw [← hI.total, C.total_update_other _ _ h_ge]
      exact C.total_update_thread_eq _ _ _ _ (by rw [hrun]; exact h_held)
  | @push l q v l' hrun hop hroom =>
    -- an honest thread pushes an id it holds
    simp only [update_self, Thread.loc_running] at hbad
    rw [hrun, Thread.loc_running] at h_wf
    have h_honest := C.honest t l h_wf
    rw [hop] at h_honest
    obtain ⟨h_lt, hv, h_push⟩ := h_honest
    obtain ⟨h_new, h_held⟩ := h_push hbad
    refine ⟨C.wf_update hI.wf h_new, ?_, free_update hI.free ?_⟩
    · rw [← hI.total]
      refine C.total_update_eq _ _ _ _ h_lt ?_
      rw [hrun, ids_append_singleton hv, Thread.loc_running, Thread.loc_running, h_held,
        Multiset.add_cons, Multiset.cons_add]
    · rintro rfl
      rw [List.mem_append, List.mem_singleton]
      exact fun hm => hm.elim hI.free fun h => hv h.symm
  | @work l bs f hrun hop =>
    -- work moves no id
    simp only [update_self, Thread.loc_running] at hbad
    rw [hrun, Thread.loc_running] at h_wf
    have h_honest := C.honest t l h_wf
    rw [hop] at h_honest
    obtain ⟨h_new, h_held⟩ := h_honest s.mem hbad
    refine ⟨C.wf_update hI.wf h_new, ?_, hI.free⟩
    rw [← hI.total]
    exact C.total_update_thread_eq _ _ _ _ (by rw [hrun]; exact h_held)
  -- the phases keep the local state, and with it what is held
  | leave hrun hop =>
    rw [hrun] at h_wf
    refine ⟨C.wf_update hI.wf h_wf, ?_, hI.free⟩
    rw [← hI.total]
    exact C.total_update_thread_eq _ _ _ _ (by rw [hrun]; rfl)
  | quit hrun hop =>
    rw [hrun] at h_wf
    refine ⟨C.wf_update hI.wf h_wf, ?_, hI.free⟩
    rw [← hI.total]
    exact C.total_update_thread_eq _ _ _ _ (by rw [hrun]; rfl)
  | last hcnt hfin =>
    rw [hcnt] at h_wf
    refine ⟨C.wf_update hI.wf h_wf, ?_, hI.free⟩
    rw [← hI.total]
    exact C.total_update_thread_eq _ _ _ _ (by rw [hcnt]; rfl)
  | notLast hcnt hfin =>
    rw [hcnt] at h_wf
    refine ⟨C.wf_update hI.wf h_wf, ?_, hI.free⟩
    rw [← hI.total]
    exact C.total_update_thread_eq _ _ _ _ (by rw [hcnt]; rfl)
  | @signal l m hsig hroom =>
    rw [hsig] at h_wf
    refine ⟨C.wf_update hI.wf h_wf, ?_, ?_⟩
    · rw [← hI.total]
      -- markers count nowhere, and the last stage has no queue to push them to
      rcases Nat.lt_or_ge (t.1 + 1) n with h_lt | h_ge
      · refine C.total_update_eq _ _ _ _ h_lt ?_
        rw [hsig, ids_append_marker]
        rfl
      · rw [C.total_update_other _ _ h_ge]
        exact C.total_update_thread_eq _ _ _ _ (by rw [hsig]; rfl)
    · change marker ∉ update s.queue (t.1 + 1) (s.queue (t.1 + 1) ++ [marker]) 0
      exact free_update hI.free fun h => absurd h (Nat.succ_ne_zero _)
  | done hsig =>
    rw [hsig] at h_wf
    refine ⟨C.wf_update hI.wf h_wf, ?_, hI.free⟩
    rw [← hI.total]
    exact C.total_update_thread_eq _ _ _ _ (by rw [hsig]; rfl)

/-- Before the first step all ids are queued. -/
theorem kept_initial {s : State M} (h_wf : ∀ t, C.wf t (s.thread t).loc)
    (h_held : ∀ t, C.held t.1 (s.thread t).loc = 0) (h_free : marker ∉ s.queue 0) :
    C.Kept (∑ q ∈ range n, ids (s.queue q)) s where
  wf := h_wf
  total := by rw [total, sum_eq_zero fun t _ => h_held t, add_zero]
  free := h_free

/-- **Run lemma.** The invariant holds in every state of a run that avoids `bad`. -/
theorem kept {pool : Multiset ℤ} {s s' : State M} (h : Reachable M bad s s')
    (h_init : C.Kept pool s) : C.Kept pool s' :=
  h.invariant h_init fun _ _ _ hI hstep hbad => hI.step C hstep hbad

/-! ### What the invariant says about one id -/

section Consequences

variable {C} {pool : Multiset ℤ} {s : State M}

/-- Every held id is an id of the pool. -/
theorem Kept.held_le (hI : C.Kept pool s) (t : Tid n M.par) :
    C.held t.1 (s.thread t).loc ≤ pool := by
  rw [← hI.total]
  refine le_trans ?_ (Multiset.le_add_left _ _)
  exact Multiset.le_sum_of_mem
    (Multiset.mem_map_of_mem (fun t => C.held t.1 (s.thread t).loc) (mem_univ t))

/-- Every queued id is an id of the pool. -/
theorem Kept.ids_le (hI : C.Kept pool s) {q : ℕ} (hq : q < n) : ids (s.queue q) ≤ pool := by
  rw [← hI.total]
  refine le_trans ?_ (Multiset.le_add_right _ _)
  exact Multiset.le_sum_of_mem
    (Multiset.mem_map_of_mem (fun q => ids (s.queue q)) (mem_range.mpr hq))

theorem Kept.mem_pool_of_held (hI : C.Kept pool s) {t : Tid n M.par} {b : ℤ}
    (hb : b ∈ C.held t.1 (s.thread t).loc) : b ∈ pool :=
  Multiset.mem_of_le (hI.held_le t) hb

/-- The occurrences of one id, counted over the queues and the threads. -/
theorem Kept.count_eq (hI : C.Kept pool s) {b : ℤ} (hb : b ≠ marker) :
    ∑ q ∈ range n, (s.queue q).count b + ∑ t, (C.held t.1 (s.thread t).loc).count b
      = pool.count b := by
  rw [← hI.total, Custody.total, Multiset.count_add, Multiset.count_sum', Multiset.count_sum']
  simp only [count_ids hb]

/-- **One place for each id.** -/
theorem Kept.count_eq_one (hI : C.Kept pool s) (hnd : pool.Nodup) {b : ℤ} (hb : b ∈ pool)
    (hm : b ≠ marker) :
    ∑ q ∈ range n, (s.queue q).count b + ∑ t, (C.held t.1 (s.thread t).loc).count b = 1 := by
  rw [hI.count_eq hm, Multiset.count_eq_one_of_mem hnd hb]

/-- Two threads never hold the same id. -/
theorem Kept.held_disjoint (hI : C.Kept pool s) (hnd : pool.Nodup) {t t' : Tid n M.par}
    (hne : t ≠ t') {b : ℤ} (hb : b ∈ C.held t.1 (s.thread t).loc) :
    b ∉ C.held t'.1 (s.thread t').loc := by
  intro hb'
  have hle : ∑ u, (C.held u.1 (s.thread u).loc).count b ≤ 1 := by
    rw [← Multiset.count_sum']
    refine le_trans (Multiset.count_le_of_le b (?_ : _ ≤ pool))
      (Multiset.nodup_iff_count_le_one.mp hnd b)
    rw [← hI.total]
    exact Multiset.le_add_left _ _
  have hpair : ∑ u ∈ {t, t'}, (C.held u.1 (s.thread u).loc).count b
      ≤ ∑ u, (C.held u.1 (s.thread u).loc).count b :=
    sum_le_sum_of_subset (subset_univ _)
  rw [sum_pair hne] at hpair
  have h1 := Multiset.one_le_count_iff_mem.mpr hb
  have h2 := Multiset.one_le_count_iff_mem.mpr hb'
  omega

/-- No id is in two queues. -/
theorem Kept.notMem_other_queue (hI : C.Kept pool s) (hnd : pool.Nodup) {q q' : ℕ} (hq : q < n)
    (hq' : q' < n) (hne : q ≠ q') {b : ℤ} (hb : b ∈ ids (s.queue q)) : b ∉ ids (s.queue q') := by
  intro hb'
  have hle : (∑ i ∈ {q, q'}, ids (s.queue i)).count b ≤ 1 := by
    refine le_trans (Multiset.count_le_of_le b (?_ : _ ≤ pool))
      (Multiset.nodup_iff_count_le_one.mp hnd b)
    rw [← hI.total]
    refine le_trans (sum_le_sum_of_subset fun i hi => ?_) (Multiset.le_add_right _ _)
    rcases Finset.mem_insert.mp hi with rfl | hi
    · exact mem_range.mpr hq
    · rw [Finset.mem_singleton.mp hi]
      exact mem_range.mpr hq'
  rw [sum_pair hne, Multiset.count_add] at hle
  have h1 := Multiset.one_le_count_iff_mem.mpr hb
  have h2 := Multiset.one_le_count_iff_mem.mpr hb'
  omega

/-- A held id is in no queue. -/
theorem Kept.notMem_queue (hI : C.Kept pool s) (hnd : pool.Nodup) {t : Tid n M.par} {b : ℤ}
    (hb : b ∈ C.held t.1 (s.thread t).loc) {q : ℕ} (hq : q < n) : b ∉ ids (s.queue q) := by
  intro hbq
  have hle : (ids (s.queue q) + C.held t.1 (s.thread t).loc).count b ≤ 1 := by
    refine le_trans (Multiset.count_le_of_le b (?_ : _ ≤ pool))
      (Multiset.nodup_iff_count_le_one.mp hnd b)
    rw [← hI.total]
    refine add_le_add ?_ ?_
    · exact Multiset.le_sum_of_mem
        (Multiset.mem_map_of_mem (fun q => ids (s.queue q)) (mem_range.mpr hq))
    · exact Multiset.le_sum_of_mem
        (Multiset.mem_map_of_mem (fun t => C.held t.1 (s.thread t).loc) (mem_univ t))
  rw [Multiset.count_add] at hle
  have h1 := Multiset.one_le_count_iff_mem.mpr hbq
  have h2 := Multiset.one_le_count_iff_mem.mpr hb
  omega

end Consequences

end Custody

/-! ### Access to the buffers -/

/-- The buffers an operation reads or writes. -/
def Op.touches {L₀ : Type} : Op L₀ β σ → List ℤ
  | .work bs _ => bs
  | _ => []

/-- The buffers thread `t` is about to read or write. -/
def touches {M : Machine n L β σ} (s : State M) (t : Tid n M.par) : List ℤ :=
  match s.thread t with
  | .running l => (M.prog t l).touches
  | _ => []

/-- The operation `op` of a thread in local state `l` touches only buffers the thread holds: it
changes no other, and its outcome does not depend on any other. -/
def Careful {L₀ : Type} (held : L₀ → Multiset ℤ) (l : L₀) : Op L₀ β σ → Prop
  | .work bs f =>
    (∀ b ∈ bs, b ∈ held l) ∧ (∀ m b, b ∉ bs → (f m).1.pool b = m.pool b) ∧
    ∀ m m', m.world = m'.world → (∀ b ∈ bs, m.pool b = m'.pool b) →
      (f m).2 = (f m').2 ∧ (f m).1.world = (f m').1.world ∧
        ∀ b ∈ bs, (f m).1.pool b = (f m').1.pool b
  | _ => True

section Access

variable {M : Machine n L β σ} {bad : (t : Tid n M.par) → L t.1 → Prop} {C : Custody M bad}
  {pool : Multiset ℤ} {s : State M}

/-- A careful thread is about to touch only buffers it holds. -/
theorem mem_held_of_mem_touches (hK : C.Kept pool s)
    (h_careful : ∀ t l, C.wf t l → Careful (C.held t.1) l (M.prog t l)) {t : Tid n M.par} {b : ℤ}
    (hb : b ∈ touches s t) : b ∈ C.held t.1 (s.thread t).loc := by
  have h_wf := hK.wf t
  unfold touches at hb
  split at hb
  · next l hrun =>
    rw [hrun, Thread.loc_running] at h_wf ⊢
    have h := h_careful t l h_wf
    rcases h_op : M.prog t l with ⟨q, k⟩ | ⟨q, v, l'⟩ | ⟨bs, f⟩ | _ | _ <;> rw [h_op] at hb h
    · cases hb
    · cases hb
    · exact h.1 b hb
    · cases hb
    · cases hb
  · cases hb

/-- A step of a careful thread leaves the buffers it does not hold alone. -/
theorem pool_eq_of_step (hK : C.Kept pool s) {t : Tid n M.par}
    (h_careful : ∀ l, C.wf t l → Careful (C.held t.1) l (M.prog t l)) {s' : State M}
    (hstep : Step M s t s') {b : ℤ} (hb : b ∉ C.held t.1 (s.thread t).loc) :
    s'.mem.pool b = s.mem.pool b := by
  have h_wf := hK.wf t
  -- only the work of a thread writes to the pool, and that to the buffers it holds
  cases hstep with
  | @work l bs f hrun hop =>
    rw [hrun, Thread.loc_running] at h_wf hb
    have h := h_careful l h_wf
    rw [hop] at h
    exact h.2.1 s.mem b fun hbs => hb (h.1 b hbs)
  | pop hrun hop hq => rfl
  | push hrun hop hroom => rfl
  | leave hrun hop => rfl
  | quit hrun hop => rfl
  | last hcnt hfin => rfl
  | notLast hcnt hfin => rfl
  | signal hsig hroom => rfl
  | done hsig => rfl

end Access

end Pipeline
